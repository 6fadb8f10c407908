import TemplateCompiler.Proofs.BlamedTokens
import TemplateCompiler.Proofs.NestedSpans
import TemplateCompiler.Proofs.ReadExpressions
import TemplateCompiler.Proofs.RenamedUnits

/-!
# Where diagnostics are

The span of a diagnostic lies in the source: both its ends are true positions of it. For what the
parser complains about this is so since it blames tokens. Binding blames a call, the list of its
arguments or one that is named, and each of these spans goes from the start of a token to the end of
another, wherever in the template the call stands.
-/

namespace TemplateCompiler

open Template (Expr Node)

/-! ## Spans of a source -/

/-- The span lies in the source of that name. -/
structure Span.PlacedIn (source : List Char) (unit : String) (s : Span) : Prop where
  true : s.TrueIn source
  unit : s.unit = unit

section

variable {source : List Char} {unit : String}

theorem Span.PlacedIn.upTo {s t span : Span} (hs : s.PlacedIn source unit)
    (ht : t.PlacedIn source unit) (h : s.upTo t = .ok span) : span.PlacedIn source unit := by
  unfold Span.upTo Span.between at h
  split at h
  · cases h
  · next hforward =>
      obtain rfl := Except.ok.inj h
      exact ⟨⟨hs.true.start, ht.true.stop, Nat.le_of_not_lt hforward⟩, hs.unit⟩

/-! ## Calls in expressions -/

/-- What a call can be blamed at lies in the source. -/
structure MacroCall.PlacedIn (source : List Char) (unit : String) (call : MacroCall) : Prop where
  span : call.span.PlacedIn source unit
  argsSpan : call.argsSpan.PlacedIn source unit
  named : ∀ a ∈ call.named, a.span.PlacedIn source unit

variable (table : MacroTable)

/-- The expression lies in the source, and so do all calls in it. -/
structure Template.Expr.PlacedIn (source : List Char) (unit : String) (e : Expr) : Prop where
  span : e.span.PlacedIn source unit
  calls : ∀ call ∈ e.callSites table, call.PlacedIn source unit

/-- Around expressions that lie in the source. -/
theorem Template.Expr.PlacedIn.of_children {e : Expr} (hspan : e.span.PlacedIn source unit)
    (hcall : ∀ call, e.macroCall? table = some call → call.PlacedIn source unit)
    (hchildren : ∀ c ∈ e.children, c.PlacedIn table source unit) :
    e.PlacedIn table source unit := by
  refine ⟨hspan, fun call hmem => ?_⟩
  rw [e.callSites_eq] at hmem
  rcases List.mem_append.mp hmem with hown | hinner
  · exact hcall call (Option.mem_toList.mp hown)
  · obtain ⟨c, hc, hmem⟩ := List.mem_flatMap.mp hinner
    exact (hchildren c hc).calls call hmem

def Phrase.PlacedIn (source : List Char) (unit : String) : Phrase → Prop
  | .expr _ e => e.PlacedIn table source unit
  | .argument args named | .leading args named | .arguments args named =>
    (∀ e ∈ args, e.PlacedIn table source unit) ∧
      ∀ a ∈ named, a.span.PlacedIn source unit ∧ a.value.PlacedIn table source unit

/-- What is spelled by tokens of the source lies in it. -/
theorem Derives.placedIn {ts : List Token} {x : Phrase} (h : Derives ts x)
    (hts : ∀ t ∈ ts, t.span.PlacedIn source unit) : x.PlacedIn table source unit := by
  induction h with
  | tighter _ ih => exact ih hts
  | binary _ _ _ hspan ihl ihr =>
      have hl := ihl (by grind)
      have hr := ihr (by grind)
      refine .of_children table (hl.span.upTo hr.span hspan) (by simp [Expr.macroCall?]) ?_
      simpa [Expr.children] using ⟨hl, hr⟩
  | negation _ _ hspan ih | sign _ _ hspan ih =>
      have he := ih (by grind)
      refine .of_children table ?_ (by simp [Expr.macroCall?]) ?_
      · exact (hts _ (by simp)).upTo he.span hspan
      simpa [Expr.children, Phrase.PlacedIn] using he
  | member _ _ _ hspan ih =>
      have he := ih (by grind)
      refine .of_children table ?_ (by simp [Expr.macroCall?]) ?_
      · exact he.span.upTo (hts _ (by simp)) hspan
      simpa [Expr.children, Phrase.PlacedIn] using he
  | index _ _ _ _ hspan ihe ihp =>
      have he := ihe (by grind)
      have hp := ihp (by grind)
      refine .of_children table ?_ (by simp [Expr.macroCall?]) ?_
      · exact he.span.upTo (hts _ (by simp)) hspan
      simpa [Expr.children] using ⟨he, hp⟩
  | @call ts us e args named opening closing argsSpan span _ _ _ _ _ hargs hspan ihe iha =>
      have he := ihe (by grind)
      obtain ⟨hpositional, hnamed⟩ := iha (by grind)
      have hclosing := hts closing (by simp)
      have hplace := he.span.upTo hclosing hspan
      refine .of_children table hplace (fun call hcall => ?_) ?_
      · obtain ⟨_, hsame, -⟩ := Expr.macroCall?_eq_some_iff.mp hcall
        obtain ⟨-, rfl, rfl, rfl, rfl⟩ := Expr.call.inj hsame
        exact ⟨hplace, (hts opening (by simp)).upTo hclosing hargs, fun a ha => (hnamed a ha).1⟩
      · intro c hc
        simp only [Expr.children, List.mem_cons, List.mem_append, List.mem_map] at hc
        rcases hc with rfl | hc | ⟨a, ha, rfl⟩
        · exact he
        · exact hpositional c hc
        · exact (hnamed a ha).2
  | filter _ _ _ hspan ih =>
      have he := ih (by grind)
      refine .of_children table ?_ (by simp [Expr.macroCall?]) ?_
      · exact he.span.upTo (hts _ (by simp)) hspan
      simpa [Expr.children, Phrase.PlacedIn] using he
  | filterWith _ _ _ _ _ _ hspan ihe iha =>
      have he := ihe (by grind)
      obtain ⟨hargs, -⟩ := iha (by grind)
      refine .of_children table ?_ (by simp [Expr.macroCall?]) ?_
      · exact he.span.upTo (hts _ (by simp)) hspan
      simpa [Expr.children] using ⟨he, hargs⟩
  | name | string | number | constant =>
      have hleaf := hts _ (List.mem_singleton_self _)
      exact .of_children table hleaf (by simp [Expr.macroCall?]) (by simp [Expr.children])
  | paren _ _ _ ih => exact ih (by grind)
  | positional _ ih => exact ⟨List.forall_mem_singleton.mpr (ih hts), List.forall_mem_nil _⟩
  | named _ _ _ hspan ih =>
      have he := ih (by grind)
      refine ⟨List.forall_mem_nil _, List.forall_mem_singleton.mpr ⟨?_, he⟩⟩
      exact (hts _ (by simp)).upTo he.span hspan
  | start => exact ⟨List.forall_mem_nil _, List.forall_mem_nil _⟩
  | comma _ _ _ ihl iha | last _ _ ihl iha =>
      obtain ⟨hargs, hnamed⟩ := ihl (by grind)
      obtain ⟨hargs', hnamed'⟩ := iha (by grind)
      exact ⟨List.forall_mem_append.mpr ⟨hargs, hargs'⟩,
        List.forall_mem_append.mpr ⟨hnamed, hnamed'⟩⟩
  | closed _ ih => exact ih hts

/-! ## Calls of a template -/

/-- The call of a call block lies in the source, and so do the calls among its arguments. -/
theorem SpellsCall.placedIn {ts : List Token} {call : MacroCall} (h : SpellsCall ts call)
    (hts : ∀ t ∈ ts, t.span.PlacedIn source unit) :
    call.PlacedIn source unit ∧ ∀ e ∈ call.exprs, e.PlacedIn table source unit := by
  obtain ⟨-, ha, hargs, hspan, hs⟩ := h
  have hmem := fun t ht => hts t (hs.subset ht)
  obtain ⟨hpositional, hnamed⟩ := ha.placedIn table fun t ht => hmem t (by simp [ht])
  refine ⟨⟨(hmem _ (by simp)).upTo (hmem _ (by simp)) hspan,
    (hmem _ (by simp)).upTo (hmem _ (by simp)) hargs, fun a ha => (hnamed a ha).1⟩, fun e he => ?_⟩
  rcases List.mem_append.mp he with he | he
  · exact hpositional e he
  · obtain ⟨a, ha, rfl⟩ := List.mem_map.mp he
    exact (hnamed a ha).2

theorem Composes.callSites_placedIn {ts : List Token} {t : Template}
    (h : Composes ts (.nodes t.body)) (hts : ∀ t ∈ ts, t.span.PlacedIn source unit) :
    ∀ call ∈ t.callSites table, call.PlacedIn source unit := by
  intro call hcall
  obtain ⟨n, hn, hcall⟩ := List.mem_flatMap.mp hcall
  rcases h.of_mem_walk hn with ⟨value, s, rfl⟩ | hnode
  · cases hcall
  · have hexprs : ∀ e ∈ n.exprs, e.PlacedIn table source unit := by
      intro e he
      obtain ⟨us, hus, hderives⟩ := hnode.spells he
      exact hderives.placedIn table fun t ht => hts t (hus.subset ht)
    rw [n.callSites_eq] at hcall
    -- only a call block has a call that is none of its expressions
    cases hnode with
    | callBlock hc _ hs =>
        obtain ⟨hown, hargs⟩ := hc.placedIn table fun t ht => hts t ((sublist_of_left hs).subset ht)
        rcases List.mem_append.mp hcall with hcall | hcall
        · rw [List.mem_singleton.mp hcall]
          exact hown
        · obtain ⟨e, he, hcall⟩ := List.mem_flatMap.mp hcall
          exact (hargs e he).calls call hcall
    | _ =>
        obtain ⟨e, he, hcall⟩ := List.mem_flatMap.mp hcall
        exact (hexprs e he).calls call hcall

end

/-! ## What binding blames -/

variable {source : List Char} {unit : String} {table : MacroTable}

theorem assignNamed_placedIn {call : MacroCall} {params : List (Parameter Expr)}
    {assigned : Assigned} {named : List (NamedArgument Expr)} {problem : Located BindProblem}
    (hnamed : ∀ a ∈ named, a.span.PlacedIn source unit)
    (h : assignNamed call params assigned named = .error problem) :
    problem.span.PlacedIn source unit := by
  induction named generalizing assigned with
  | nil => cases h
  | cons a named ih =>
      obtain ⟨ha, hnamed⟩ := List.forall_mem_cons.mp hnamed
      rw [assignNamed] at h
      split at h
      · rw [← Except.error.inj h]
        exact ha
      · split at h
        · rw [← Except.error.inj h]
          exact ha
        · exact ih hnamed h

theorem bind_placedIn {call : MacroCall} (hcall : call.PlacedIn source unit)
    {problem : Located BindProblem} (h : bind table call = .error problem) :
    problem.span.PlacedIn source unit := by
  unfold bind at h
  split at h
  · rw [← Except.error.inj h]
    exact hcall.span
  · next d _ =>
      dsimp only at h
      split at h
      · rw [← Except.error.inj h]
        exact hcall.argsSpan
      · cases hassigned : assignNamed call d.params (assignPositional d.params call.args)
            call.named with
        | error p =>
            rw [hassigned] at h
            rw [← Except.error.inj h]
            exact assignNamed_placedIn hcall.named hassigned
        | ok assigned =>
            rw [hassigned] at h
            dsimp only [Bind.bind, Except.bind] at h
            split at h
            · rw [← Except.error.inj h]
              exact hcall.argsSpan
            · cases h

/-! ## Diagnostics of a parsed source -/

theorem tokenize_placedIn {delimiters : Delimiters} (hd : delimiters.check = .ok ())
    (source unit : String) :
    (∀ t ∈ (tokenize source unit delimiters).1, t.span.PlacedIn source.toList unit) ∧
      ∀ f, (tokenize source unit delimiters).2 = some f → f.span.PlacedIn source.toList unit := by
  have hcovers := tokenize_covers hd source unit
  refine ⟨fun t ht => ⟨hcovers.spans t ht, tokenize_units source unit delimiters t ht⟩, ?_⟩
  intro f hf
  refine ⟨hcovers.fault f hf, ?_⟩
  rw [tokenize_inUnit source unit unit delimiters] at hf
  obtain ⟨f, -, rfl⟩ := Option.map_eq_some_iff.mp hf
  rfl

/-- What is found wrong with a source by reading it, or by binding the calls in it to macros, lies
in the source, and is reached through no other place. -/
theorem parse_diagnostics_placedIn {setting : Parser.Setting} {delimiters : Delimiters}
    (hd : delimiters.check = .ok ()) {source : String} {p : Parsed}
    (hp : parse setting delimiters source = .ok p) {d : Diagnostic}
    (h : d ∈ p.diagnostics delimiters ∨
      d ∈ (bindAll p.template table).2.map (·.diagnostic BindProblem.message)) :
    d.span.PlacedIn source.toList setting.unit ∧ d.secondary = [] := by
  obtain ⟨htokens, hfault⟩ := tokenize_placedIn hd source setting.unit
  rcases h with h | h
  · obtain ⟨c, hc, rfl⟩ := List.mem_map.mp h
    refine ⟨?_, rfl⟩
    obtain ⟨earlier, hblames, hcomplaints⟩ := parse_blames hd hp
    have hearlier : ∀ c ∈ earlier, c.span.PlacedIn source.toList setting.unit := by
      intro c hc
      obtain ⟨t, ht, hspan⟩ := (hblames c hc).token
      rw [hspan]
      exact htokens t ht
    rcases hcomplaints with hall | ⟨f, hf, hall⟩
    · exact hearlier c (hall ▸ hc)
    · rw [hall] at hc
      rcases List.mem_append.mp hc with hc | hc
      · exact hearlier c hc
      · rw [List.mem_singleton.mp hc]
        exact hfault f hf
  · obtain ⟨problem, hproblem, rfl⟩ := List.mem_map.mp h
    refine ⟨?_, rfl⟩
    rw [bindAll, bindCalls_problems] at hproblem
    obtain ⟨call, hcall, hbind⟩ := List.mem_filterMap.mp hproblem
    exact bind_placedIn ((parseTokens_composes hp).callSites_placedIn table htokens call hcall)
      (bind_of_problem? hbind)

end TemplateCompiler
