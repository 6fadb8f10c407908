import TemplateCompiler.Proofs.BoundSites
import TemplateCompiler.Proofs.GeneratedCalls

/-!
# The last definition of a name counts

A table keeps the last definition that was added of each name, and the names in the order in which
they were first added. That is said of lists of definitions (`MacroTable.Holds`): one step adds one
definition, and a table is built from nothing by such steps.

The definitions of a template are added in the order of a walk that enters a block before it goes on
behind it. The name of each is a token of its own, and the walk meets these tokens as they stand in
the source. So the definitions that are added later are those that start later, however they are
nested in each other and in other blocks.
-/

namespace TemplateCompiler

open Template (Node walkAll walkArms)

/-! ## Tables of lists -/

namespace MacroTable

/-- Among `ds` there is a definition of `a`, and none of `b` up to it. -/
def DefinedBefore (ds : List MacroDef) (a b : String) : Prop :=
  ∃ us d vs, ds = us ++ d :: vs ∧ d.name = a ∧ ∀ e ∈ us ++ [d], e.name ≠ b

theorem DefinedBefore.append {ds : List MacroDef} {a b : String} (h : DefinedBefore ds a b)
    (es : List MacroDef) : DefinedBefore (ds ++ es) a b := by
  obtain ⟨us, d, vs, rfl, ha, hb⟩ := h
  exact ⟨us, d, vs ++ es, by simp, ha, hb⟩

/-- The table holds the last definition of each name in `ds`, the names in the order of their first
definitions. -/
structure Holds (table : MacroTable) (ds : List MacroDef) : Prop where
  last : ∀ name, table.lookup? name = (ds.filter (·.name = name)).getLast?
  first : (table.definitions.map (·.name)).Pairwise (DefinedBefore ds)

theorem find?_replace (ds : List MacroDef) (d : MacroDef) (name : String) :
    (ds.map fun e => if e.name = d.name then d else e).find? (·.name = name) =
      (ds.find? (·.name = name)).map fun e => if e.name = d.name then d else e := by
  rw [List.find?_map]
  congr 2
  funext e
  by_cases he : e.name = d.name <;> simp [he]

theorem lookup?_define (table : MacroTable) (d : MacroDef) (name : String) :
    (table.define d).lookup? name = if d.name = name then some d else table.lookup? name := by
  by_cases hcontains : table.contains d.name
  · have hreplaced : (table.define d).lookup? name =
        (table.lookup? name).map fun e => if e.name = d.name then d else e := by
      simp only [define, lookup?, if_pos hcontains, find?_replace]
    rw [hreplaced]
    cases hlookup : table.lookup? name with
    | none =>
        have hname : d.name ≠ name := by
          rintro rfl
          simp [contains, hlookup] at hcontains
        rw [Option.map_none, if_neg hname]
    | some e =>
        obtain ⟨-, rfl⟩ := lookup?_some hlookup
        by_cases hname : d.name = e.name <;> simp [hname, eq_comm]
  · have hadded : (table.define d).lookup? name =
        (table.lookup? name).or ([d].find? (·.name = name)) := by
      simp only [define, lookup?, if_neg hcontains, List.find?_append]
    have hnew : table.lookup? d.name = none := by simpa [contains] using hcontains
    rw [hadded]
    by_cases hname : d.name = name
    · subst hname
      simp [hnew]
    · simp [hname]

namespace Holds

variable {table : MacroTable} {ds : List MacroDef}

theorem empty : Holds {} [] := ⟨fun _ => rfl, .nil⟩

theorem contains_iff (h : table.Holds ds) {name : String} :
    table.contains name ↔ ∃ d ∈ ds, d.name = name := by
  rw [contains, h.last, List.getLast?_isSome]
  simp

theorem define (h : table.Holds ds) (d : MacroDef) : (table.define d).Holds (ds ++ [d]) where
  last name := by
    rw [lookup?_define, h.last, List.filter_append]
    by_cases hname : d.name = name <;> simp [hname]
  first := by
    have hbefore := h.first.imp fun hab => hab.append [d]
    rw [define_names]
    split
    · exact hbefore
    · next hnew =>
        rw [List.pairwise_append]
        refine ⟨hbefore, List.pairwise_singleton _ _, fun a ha b hb => ?_⟩
        obtain rfl := List.mem_singleton.mp hb
        -- `a` was defined before, and no definition so far has the new name
        rw [h.contains_iff] at hnew
        obtain ⟨e, he, rfl⟩ := h.contains_iff.mp (MacroTable.contains_iff.mpr ha)
        obtain ⟨us, vs, rfl⟩ := List.append_of_mem he
        exact ⟨us, e, vs ++ [d], by simp, rfl, fun f hf heq => hnew ⟨f, by grind, heq⟩⟩

theorem defineAll (h : table.Holds ds) (es : List MacroDef) :
    (table.defineAll es).1.Holds (ds ++ es) := by
  induction es generalizing table ds with
  | nil => rwa [List.append_nil]
  | cons e es ih =>
      have hnext := ih (h.define e)
      rwa [List.append_assoc] at hnext

/-- If a list is ordered by `R`, the definition in its table is behind all others of its name. -/
theorem behind {R : MacroDef → MacroDef → Prop} (h : table.Holds ds) (hds : ds.Pairwise R)
    {name : String} {d : MacroDef} (hd : table.lookup? name = some d) :
    d ∈ ds ∧ d.name = name ∧ ∀ e ∈ ds, e.name = name → e = d ∨ R e d := by
  rw [h.last, List.getLast?_eq_some_iff] at hd
  obtain ⟨earlier, hearlier⟩ := hd
  have hnamed : ∀ e, e ∈ ds ∧ e.name = name ↔ e ∈ earlier ++ [d] := by
    intro e
    rw [← hearlier, List.mem_filter, decide_eq_true_iff]
  obtain ⟨hmem, hname⟩ := (hnamed d).mpr (by simp)
  refine ⟨hmem, hname, fun e he hename => ?_⟩
  have hsorted := hds.filter (·.name = name)
  rw [hearlier, List.pairwise_append] at hsorted
  rcases List.mem_append.mp ((hnamed e).mp ⟨he, hename⟩) with he | he
  · exact .inr (hsorted.2.2 e he d (by simp))
  · exact .inl (List.mem_singleton.mp he)

end Holds

/-- In a list that is ordered by `R`, that definition stands before all of the other name. -/
theorem DefinedBefore.ahead {R : MacroDef → MacroDef → Prop} {ds : List MacroDef} {a b : String}
    (h : DefinedBefore ds a b) (hds : ds.Pairwise R) :
    ∃ d ∈ ds, d.name = a ∧ ∀ e ∈ ds, e.name = b → R d e := by
  obtain ⟨us, d, vs, rfl, ha, hb⟩ := h
  refine ⟨d, by simp, ha, fun e he hename => ?_⟩
  rcases List.mem_append.mp he with he | he
  · exact absurd hename (hb e (by simp [he]))
  · rcases List.mem_cons.mp he with rfl | he
    · exact absurd hename (hb e (by simp))
    · exact (List.pairwise_cons.mp (List.pairwise_append.mp hds).2.1).1 e he

end MacroTable

theorem Template.macroTable_holds (t : Template) : t.macroTable.1.Holds t.definitions :=
  MacroTable.Holds.empty.defineAll t.definitions

/-! ## Definitions in the source -/

/-- Where the names of the definitions in a piece start, at any depth. -/
def Piece.definitionStarts (x : Piece) : List Position :=
  (x.walk.filterMap (·.definition?)).map (·.nameSpan.start)

theorem Token.nameStarts_sublist {ts us : List Token} (h : List.Sublist ts us) :
    List.Sublist (nameStarts ts) (nameStarts us) :=
  (h.filter _).map _

/-- Definitions are walked through in the order of their name tokens. -/
theorem Composes.definitionStarts_sublist {ts : List Token} {x : Piece} (h : Composes ts x) :
    List.Sublist x.definitionStarts (Token.nameStarts ts) := by
  induction h with
  | output | inclusion | assignment | empty | noArms => exact List.nil_sublist _
  | branch _ ih => exact ih
  | @loop ts us vs ws targets e body otherwise span _ _ _ hs ihb iho =>
      have hparts : Piece.definitionStarts (.node (.loop targets e body otherwise span)) =
          Piece.definitionStarts (.nodes body) ++ Piece.definitionStarts (.nodes otherwise) := by
        simp [Piece.definitionStarts, Piece.walk, Node.walk, Node.definition?]
      have hrest := Token.nameStarts_sublist (sublist_of_right ((List.append_assoc ts us vs) ▸ hs))
      rw [hparts]
      rw [Token.nameStarts_append] at hrest
      exact (ihb.append iho).trans hrest
  | @definition ts us ws name params body span hp _ hs ih =>
      cases hp with
      | @signature ps _ _ _ hname hps hsig =>
          have hown : List.Sublist (name :: us) ws := by
            have hhead : List.Sublist [name] ts := (List.singleton_sublist.mpr (by simp)).trans hsig
            exact (hhead.append (List.Sublist.refl us)).trans hs
          have hnames := Token.nameStarts_sublist hown
          rw [Token.nameStarts_cons_of_name hname] at hnames
          exact (ih.cons_cons name.span.start).trans hnames
  | callBlock _ _ hs ih => exact ih.trans (Token.nameStarts_sublist (sublist_of_right hs))
  | @text ts ws ns t value _ _ hs ih =>
      have hparts : Piece.definitionStarts (.nodes (ns ++ [.text value t.span])) =
          Piece.definitionStarts (.nodes ns) := by
        simp [Piece.definitionStarts, Piece.walk, Template.walkAll_append, walkAll, Node.walk,
          Node.definition?]
      rw [hparts]
      exact ih.trans (Token.nameStarts_sublist (sublist_of_left hs))
  | @append ts us ws ns n _ _ hs ihns ihn =>
      have hparts : Piece.definitionStarts (.nodes (ns ++ [n])) =
          Piece.definitionStarts (.nodes ns) ++ Piece.definitionStarts (.node n) := by
        simp [Piece.definitionStarts, Piece.walk, Template.walkAll_append, walkAll]
      have hnames := Token.nameStarts_sublist hs
      rw [hparts]
      rw [Token.nameStarts_append] at hnames
      exact (ihns.append ihn).trans hnames
  | @arm ts us vs ws arms condition body span _ _ _ hs iha ihb =>
      have hparts : Piece.definitionStarts (.arms (arms ++ [⟨condition, body, span⟩])) =
          Piece.definitionStarts (.arms arms) ++ Piece.definitionStarts (.nodes body) := by
        simp [Piece.definitionStarts, Piece.walk, Template.walkArms_append, walkArms]
      have hnames := Token.nameStarts_sublist
        (((List.sublist_append_left ts us).append (List.Sublist.refl vs)).trans hs)
      rw [hparts]
      rw [Token.nameStarts_append] at hnames
      exact (iha.append ihb).trans hnames

theorem Composes.definitions_increasing {ts : List Token} {t : Template}
    (h : Composes ts (.nodes t.body)) (hts : Token.InOrder ts) :
    t.definitions.Pairwise fun d e => d.nameSpan.start.offset < e.nameSpan.start.offset := by
  have hstarts := hts.nameStarts_increasing.sublist h.definitionStarts_sublist
  rwa [Piece.definitionStarts, List.pairwise_map] at hstarts

/-! ## Tables of parsed templates -/

theorem Template.definitions_enumerates (t : Template) :
    Enumerates t.definitions fun path d => t.NodeAt path (.definition d) := by
  refine ((walkAll_enumerates t.body).filterMap (·.definition?)).congr fun path d => ?_
  constructor
  · rintro ⟨n, hn, hd⟩
    cases n with
    | definition e =>
        obtain rfl := Option.some.inj hd
        exact hn
    | _ => cases hd
  · exact fun hd => ⟨_, hd, rfl⟩

theorem MacroTable.lookup?_of_mem {table : MacroTable}
    (h : (table.definitions.map (·.name)).Nodup) {d : MacroDef} (hd : d ∈ table.definitions) :
    table.lookup? d.name = some d := by
  have hcontains : table.contains d.name := contains_iff.mpr (List.mem_map_of_mem hd)
  obtain ⟨e, he⟩ := Option.isSome_iff_exists.mp hcontains
  obtain ⟨hmem, hname⟩ := lookup?_some he
  rw [he, List.inj_on_of_nodup_map h hmem hd hname]

theorem bind_of_binding? {table : MacroTable} {call : MacroCall}
    {entry : Span × BoundCall Template.Expr} (h : binding? table call = some entry) :
    call.span = entry.1 ∧ bind table call = .ok entry.2 := by
  unfold binding? at h
  split at h
  · next bound hbound =>
      obtain rfl := Option.some.inj h
      exact ⟨rfl, hbound⟩
  · cases h

/-- The names in a table are those of the definitions of a template, wherever these stand. Each is
mapped to the definition that starts last, the names stand in the order in which their first
definitions start, and bound calls and programs of macros are made from the mapped definitions. -/
structure LastCounts (t : Template) (table : MacroTable) : Prop where
  names : ∀ name, table.contains name ↔ ∃ path d, t.NodeAt path (.definition d) ∧ d.name = name
  last : ∀ name d, table.lookup? name = some d →
    ∃ path, t.NodeAt path (.definition d) ∧ d.name = name ∧
      ∀ path' e, t.NodeAt path' (.definition e) → e.name = name →
        path' = path ∨ e.nameSpan.start.offset < d.nameSpan.start.offset
  ordered : (table.definitions.map (·.name)).Pairwise fun a b =>
    ∃ path d, t.NodeAt path (.definition d) ∧ d.name = a ∧
      ∀ path' e, t.NodeAt path' (.definition e) → e.name = b →
        d.nameSpan.start.offset < e.nameSpan.start.offset
  bound : ∀ entry ∈ (bindAll t table).1, ∃ call ∈ t.callSites table, call.span = entry.1 ∧
    entry.2.definition = call.name ∧
      ∃ d, table.lookup? call.name = some d ∧ entry.2.arguments.map (·.param) = d.params
  generated : ∀ includes escaper unit program,
    (Generator.ofTemplate t includes escaper).program t unit = .ok program →
      program.macros.map (·.name) = table.definitions.map (·.name) ∧
        (∀ m ∈ program.macros, ∃ d, table.lookup? m.name = some d ∧
          (Generator.ofTemplate t includes escaper).macroProgram d = .ok m) ∧
        ∀ call, program.HasInvocation call →
          ∃ d, table.lookup? call.definition = some d ∧ call.arguments.map (·.param) = d.params

/-- Later definitions take the place of earlier ones, in the order of the source. -/
theorem parse_lastCounts {setting : Parser.Setting} {delimiters : Delimiters} {source : String}
    {parsed : Parsed} (h : parse setting delimiters source = .ok parsed) :
    LastCounts parsed.template parsed.template.macroTable.1 := by
  have hplaces := parsed.template.definitions_enumerates
  have hholds := parsed.template.macroTable_holds
  have hincreasing := (parse_composes h).definitions_increasing (tokenize_inOrder _ _ _)
  have hstarts : (parsed.template.definitions.map (·.nameSpan.start.offset)).Nodup :=
    List.pairwise_map.mpr (hincreasing.imp Nat.ne_of_lt)
  refine ⟨fun name => ?_, fun name d hd => ?_, ?_, ?_, ?_⟩
  · rw [hholds.contains_iff]
    constructor
    · rintro ⟨d, hd, hname⟩
      obtain ⟨path, hpath⟩ := hplaces.mem_iff.mp hd
      exact ⟨path, d, hpath, hname⟩
    · rintro ⟨path, d, hpath, hname⟩
      exact ⟨d, hplaces.mem_iff.mpr ⟨path, hpath⟩, hname⟩
  · obtain ⟨hmem, hname, hbehind⟩ := hholds.behind hincreasing hd
    obtain ⟨path, hpath⟩ := hplaces.mem_iff.mp hmem
    refine ⟨path, hpath, hname, fun path' e he hename => ?_⟩
    rcases hbehind e (hplaces.mem_iff.mpr ⟨path', he⟩) hename with rfl | hlt
    · exact .inl (hplaces.eq_of_nodup_map hstarts he hpath rfl)
    · exact .inr hlt
  · refine hholds.first.imp fun hab => ?_
    obtain ⟨d, hmem, hname, hahead⟩ := hab.ahead hincreasing
    obtain ⟨path, hpath⟩ := hplaces.mem_iff.mp hmem
    exact ⟨path, d, hpath, hname, fun path' e he => hahead e (hplaces.mem_iff.mpr ⟨path', he⟩)⟩
  · intro entry hentry
    rw [bindAll_eq (parse_spans_nodup h _)] at hentry
    obtain ⟨call, hcall, hbinding⟩ := List.mem_filterMap.mp hentry
    obtain ⟨hspan, hbind⟩ := bind_of_binding? hbinding
    obtain ⟨hname, hmatches⟩ := Generator.bind_matches hbind
    exact ⟨call, hcall, hspan, hname, hmatches⟩
  · intro includes escaper unit program hprogram
    refine ⟨macro_names hprogram, fun m hm => ?_, fun call hcall =>
      matches_of_hasInvocation hprogram hcall⟩
    obtain ⟨d, hd, hgenerated⟩ :=
      Generator.exists_of_mem_sequence (Generator.program_spec hprogram).1 hm
    refine ⟨d, ?_, hgenerated⟩
    rw [(Generator.macroProgram_spec hgenerated).1]
    exact MacroTable.lookup?_of_mem parsed.template.macroTable_nodup hd

/-- A macro that is defined again in its own body, and another one in an arm. -/
theorem lastCounts_of_nested_definitions :
    let source := "\x7b% macro m(a) %\x7d\x7b% macro m(b) %\x7d\x7b% endmacro %\x7d" ++
      "\x7b% endmacro %\x7d\x7b% if m(1) %\x7d\x7b% macro n() %\x7d" ++
      "\x7b% endmacro %\x7d\x7b% endif %\x7d"
    ∃ parsed, parse ⟨"page", .preserve⟩ .standard source = .ok parsed ∧
      LastCounts parsed.template parsed.template.macroTable.1 ∧
      parsed.template.macroTable.1.definitions.map (fun d => (d.name, d.params.map (·.name))) =
        [("m", ["b"]), ("n", [])] := by
  intro source
  obtain ⟨parsed, hparsed, htable⟩ := Except.exists_of_toOption_map
    (x := parse ⟨"page", .preserve⟩ .standard source)
    (f := fun p => p.template.macroTable.1.definitions.map fun d =>
      (d.name, d.params.map (·.name)))
    (b := [("m", ["b"]), ("n", [])]) (by decide +kernel)
  exact ⟨parsed, hparsed, parse_lastCounts hparsed, htable⟩

end TemplateCompiler
