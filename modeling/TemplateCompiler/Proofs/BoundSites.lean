import TemplateCompiler.Proofs.Binding
import TemplateCompiler.Proofs.SiteStarts

/-!
# Every call has a binding of its own

Bindings are kept by the span of the call. The calls of a parsed template start at different places,
so no binding takes the place of another: each call that binds finds its own, and each call that
does not has a problem.
-/

namespace TemplateCompiler

open Template (Expr Node SitePlace)

/-! ## All calls -/

section

variable {table : MacroTable}

/-- What a call adds to the bindings. -/
def binding? (table : MacroTable) (call : MacroCall) : Option (Span × BoundCall Expr) :=
  match bind table call with
  | .ok bound => some (call.span, bound)
  | .error _ => none

/-- What a call adds to the problems. -/
def problem? (table : MacroTable) (call : MacroCall) : Option (Located BindProblem) :=
  match bind table call with
  | .ok _ => none
  | .error problem => some problem

section

variable {call : MacroCall} {bound : BoundCall Expr} {problem : Located BindProblem}

theorem binding?_of_ok (h : bind table call = .ok bound) :
    binding? table call = some (call.span, bound) := by
  rw [binding?, h]

theorem binding?_of_error (h : bind table call = .error problem) : binding? table call = none := by
  rw [binding?, h]

theorem problem?_of_ok (h : bind table call = .ok bound) : problem? table call = none := by
  rw [problem?, h]

theorem problem?_of_error (h : bind table call = .error problem) :
    problem? table call = some problem := by
  rw [problem?, h]

theorem bind_of_problem? (h : problem? table call = some problem) :
    bind table call = .error problem := by
  cases hbind : bind table call with
  | ok bound => cases (problem?_of_ok hbind).symm.trans h
  | error problem' => rw [Option.some.inj ((problem?_of_error hbind).symm.trans h)]

end

theorem Bindings.insert_new {bindings : Bindings} {span : Span} {bound : BoundCall Expr}
    (h : span ∉ bindings.map Prod.fst) :
    bindings.insert span bound = bindings ++ [(span, bound)] := by
  rw [insert, if_neg]
  rwa [lookup_isSome_iff_mem]

/-- Calls of different spans add their bindings one behind the other. -/
theorem bindCalls_eq (bindings : Bindings) (calls : List MacroCall)
    (h : (bindings.map Prod.fst ++ calls.map (·.span)).Nodup) :
    bindCalls table bindings calls =
      (bindings ++ calls.filterMap (binding? table), calls.filterMap (problem? table)) := by
  induction calls generalizing bindings with
  | nil => simp [bindCalls]
  | cons call calls ih =>
      rw [List.map_cons, List.nodup_middle, List.nodup_cons] at h
      obtain ⟨hnew, hrest⟩ := h
      rw [bindCalls]
      cases hbind : bind table call with
      | ok bound =>
          have hfresh : call.span ∉ bindings.map Prod.fst :=
            fun hmem => hnew (List.mem_append_left _ hmem)
          dsimp only
          rw [Bindings.insert_new hfresh, ih, List.filterMap_cons_some (binding?_of_ok hbind),
            List.filterMap_cons_none (problem?_of_ok hbind), List.append_assoc]
          · rfl
          · rw [List.map_append, List.append_assoc]
            exact List.nodup_middle.mpr (List.nodup_cons.mpr ⟨hnew, hrest⟩)
      | error problem =>
          dsimp only
          rw [ih bindings hrest, List.filterMap_cons_none (binding?_of_error hbind),
            List.filterMap_cons_some (problem?_of_error hbind)]

theorem length_entries_add_problems (calls : List MacroCall) :
    (calls.filterMap (binding? table)).length + (calls.filterMap (problem? table)).length =
      calls.length := by
  induction calls with
  | nil => rfl
  | cons call calls ih =>
      cases hbind : bind table call with
      | ok bound =>
          rw [List.filterMap_cons_some (binding?_of_ok hbind),
            List.filterMap_cons_none (problem?_of_ok hbind), List.length_cons, List.length_cons]
          omega
      | error problem =>
          rw [List.filterMap_cons_none (binding?_of_error hbind),
            List.filterMap_cons_some (problem?_of_error hbind), List.length_cons, List.length_cons]
          omega

theorem entries_spans (calls : List MacroCall) :
    ((calls.filterMap (binding? table)).map Prod.fst).Sublist (calls.map (·.span)) := by
  induction calls with
  | nil => exact .slnil
  | cons call calls ih =>
      cases hbind : bind table call with
      | ok bound =>
          rw [List.filterMap_cons_some (binding?_of_ok hbind)]
          exact ih.cons_cons _
      | error problem =>
          rw [List.filterMap_cons_none (binding?_of_error hbind)]
          exact ih.cons _

end

/-! ## Templates whose calls are apart -/

section

variable {t : Template} {table : MacroTable}

theorem bindAll_eq (h : ((t.callSites table).map (·.span)).Nodup) :
    bindAll t table =
      ((t.callSites table).filterMap (binding? table),
        (t.callSites table).filterMap (problem? table)) :=
  bindCalls_eq [] _ h

/-- A call finds its own binding. -/
theorem bindAll_lookup (h : ((t.callSites table).map (·.span)).Nodup) {call : MacroCall}
    (hcall : call ∈ t.callSites table) {bound : BoundCall Expr}
    (hbound : bind table call = .ok bound) :
    (bindAll t table).1.lookup call.span = some bound := by
  rw [bindAll_eq h]
  refine lookup_of_mem (h.sublist (entries_spans _)) ?_
  exact List.mem_filterMap.mpr ⟨call, hcall, binding?_of_ok hbound⟩

/-- Without problems, every call binds. -/
theorem bind_ok_of_bindAll (h : ((t.callSites table).map (·.span)).Nodup)
    (hproblems : (bindAll t table).2 = []) {call : MacroCall} (hcall : call ∈ t.callSites table) :
    ∃ bound, bind table call = .ok bound := by
  rw [bindAll_eq h, List.filterMap_eq_nil_iff] at hproblems
  cases hbind : bind table call with
  | ok bound => exact ⟨bound, rfl⟩
  | error problem => simpa [problem?_of_error hbind] using hproblems call hcall

end

/-! ## Parsed templates -/

section

variable {setting : Parser.Setting} {delimiters : Delimiters} {source : String} {parsed : Parsed}

theorem parse_composes (h : parse setting delimiters source = .ok parsed) :
    Composes (tokenize source setting.unit delimiters).1 (.nodes parsed.template.body) :=
  parseTokens_composes h

theorem parse_spans_nodup (h : parse setting delimiters source = .ok parsed) (table : MacroTable) :
    ((parsed.template.callSites table).map (·.span)).Nodup := by
  have hstarts := (parse_composes h).starts_nodup (tokenize_inOrder _ _ _) table
  rw [show (fun c : MacroCall => c.span.start) = Span.start ∘ MacroCall.span from rfl,
    ← List.map_map] at hstarts
  exact hstarts.of_map _

end

/-- The calls of a template are found once each, stand at spans of their own, and each of them that
binds has its own binding there. -/
structure SitesBound (t : Template) (table : MacroTable) : Prop where
  once : Enumerates (t.callSites table) (t.SiteAt table)
  apart : ∀ p q c d, t.SiteAt table p c → t.SiteAt table q d → p ≠ q → c.span ≠ d.span
  counted : (bindAll t table).1.length + (bindAll t table).2.length = (t.callSites table).length
  own : ∀ p c bound, t.SiteAt table p c → bind table c = .ok bound →
    (bindAll t table).1.lookup c.span = some bound

/-- Bindings never take each other's place, in any source that can be parsed. -/
theorem parse_sitesBound {setting : Parser.Setting} {delimiters : Delimiters} {source : String}
    {parsed : Parsed} (h : parse setting delimiters source = .ok parsed) :
    SitesBound parsed.template parsed.template.macroTable.1 := by
  have hspans := parse_spans_nodup h parsed.template.macroTable.1
  have honce := parsed.template.callSites_enumerates parsed.template.macroTable.1
  refine ⟨honce, fun p q c d hc hd hne heq => ?_, ?_, fun p c bound hc hbound => ?_⟩
  · exact hne (honce.eq_of_nodup_map hspans hc hd heq)
  · rw [bindAll_eq hspans]
    exact length_entries_add_problems _
  · exact bindAll_lookup hspans (honce.mem_iff.mpr ⟨p, hc⟩) hbound

/-- A call of what a call gives, and calls among the arguments of both. -/
theorem sitesBound_of_nested_calls :
    let source := "\x7b% macro m(a) %\x7d\x7b% endmacro %\x7d" ++
      "\x7b\x7b (m)(m(1))(2)[m(m(3))] \x7d\x7d"
    ∃ parsed : Parsed, parse ⟨"page", .preserve⟩ .standard source = .ok parsed ∧
      (parsed.template.callSites parsed.template.macroTable.1).length = 4 ∧
      SitesBound parsed.template parsed.template.macroTable.1 := by
  intro source
  obtain ⟨parsed, hparsed, hcount⟩ := Except.exists_of_toOption_map
    (x := parse ⟨"page", .preserve⟩ .standard source)
    (f := fun parsed => (parsed.template.callSites parsed.template.macroTable.1).length) (b := 4)
    (by decide +kernel)
  exact ⟨parsed, hparsed, hcount, parse_sitesBound hparsed⟩

end TemplateCompiler
