import TemplateCompiler.Macro.Table
import TemplateCompiler.Proofs.Places
import TemplateCompiler.Proofs.StatementSound

/-!
# Macro tables of parsed templates

A table holds one definition for each name, and each of them is a definition of the template. A
parameter whose name occurs again is left out by the parser, so no two parameters of a definition
have one name.
-/

namespace TemplateCompiler

open Template (Expr Node walkAll walkArms)

/-! ## Tables -/

namespace MacroTable

variable {table : MacroTable}

theorem lookup?_some {name : String} {d : MacroDef} (h : table.lookup? name = some d) :
    d ∈ table.definitions ∧ d.name = name :=
  ⟨List.mem_of_find?_eq_some h, by simpa using List.find?_some h⟩

theorem contains_iff {name : String} :
    table.contains name ↔ name ∈ table.definitions.map (·.name) := by
  simp [contains, lookup?, List.find?_isSome]

/-- What holds of the definitions before and of the new one holds of those after. -/
theorem define_forall {P : MacroDef → Prop} {d : MacroDef} (h : ∀ e ∈ table.definitions, P e)
    (hd : P d) : ∀ e ∈ (table.define d).definitions, P e := by
  intro e he
  unfold define at he
  dsimp only at he
  split at he
  · obtain ⟨earlier, hearlier, rfl⟩ := List.mem_map.mp he
    split
    · exact hd
    · exact h earlier hearlier
  · rcases List.mem_append.mp he with he | he
    · exact h e he
    · obtain rfl := List.mem_singleton.mp he
      exact hd

theorem define_names (d : MacroDef) :
    (table.define d).definitions.map (·.name) =
      if table.contains d.name then table.definitions.map (·.name)
      else table.definitions.map (·.name) ++ [d.name] := by
  unfold define
  split
  · rw [List.map_map]
    refine List.map_congr_left fun e _ => ?_
    by_cases hname : e.name = d.name <;> simp [hname]
  · rw [List.map_append]
    rfl

theorem define_nodup (d : MacroDef) (h : (table.definitions.map (·.name)).Nodup) :
    ((table.define d).definitions.map (·.name)).Nodup := by
  rw [define_names]
  split
  · exact h
  · next hnew =>
      refine List.nodup_append.mpr ⟨h, List.nodup_singleton _, ?_⟩
      rintro name hname _ hd rfl
      obtain rfl := List.mem_singleton.mp hd
      exact hnew (contains_iff.mpr hname)

theorem defineAll_forall {P : MacroDef → Prop} (ds : List MacroDef) (table : MacroTable)
    (h : ∀ e ∈ table.definitions, P e) (hds : ∀ d ∈ ds, P d) :
    ∀ e ∈ (table.defineAll ds).1.definitions, P e := by
  induction ds generalizing table with
  | nil => exact h
  | cons d ds ih =>
      obtain ⟨hd, hds⟩ := List.forall_mem_cons.mp hds
      exact ih (table.define d) (define_forall h hd) hds

theorem defineAll_nodup (ds : List MacroDef) (table : MacroTable)
    (h : (table.definitions.map (·.name)).Nodup) :
    ((table.defineAll ds).1.definitions.map (·.name)).Nodup := by
  induction ds generalizing table with
  | nil => exact h
  | cons d ds ih => exact ih (table.define d) (define_nodup d h)

end MacroTable

namespace Template

variable (t : Template)

theorem macroTable_nodup : (t.macroTable.1.definitions.map (·.name)).Nodup :=
  MacroTable.defineAll_nodup t.definitions {} List.nodup_nil

theorem mem_definitions_iff {d : MacroDef} :
    d ∈ t.definitions ↔ .definition d ∈ walkAll t.body := by
  rw [definitions, List.mem_filterMap]
  constructor
  · rintro ⟨n, hn, hd⟩
    cases n with
    | definition e =>
        obtain rfl := Option.some.inj hd
        exact hn
    | _ => cases hd
  · exact fun h => ⟨_, h, rfl⟩

theorem mem_macroTable {d : MacroDef} (h : d ∈ t.macroTable.1.definitions) :
    .definition d ∈ walkAll t.body := by
  refine MacroTable.defineAll_forall (P := fun d => .definition d ∈ walkAll t.body) t.definitions
    {} nofun (fun d hd => t.mem_definitions_iff.mp hd) d h

end Template

/-! ## Parsed templates -/

/-- A node together with all nodes inside it. -/
def Piece.walk : Piece → List Node
  | .node n => n.walk
  | .nodes ns => walkAll ns
  | .arms as => walkArms as

/-- Every node of a template but literal text is composed of tokens itself. -/
theorem Composes.of_mem_walk {ts : List Token} {x : Piece} (h : Composes ts x) {n : Node}
    (hn : n ∈ x.walk) : (∃ value s, n = .text value s) ∨ Composes ts (.node n) := by
  have hmono : ∀ {us vs : List Token}, us.Sublist vs →
      ((∃ value s, n = .text value s) ∨ Composes us (.node n)) →
      (∃ value s, n = .text value s) ∨ Composes vs (.node n) :=
    fun hs h => h.imp_right fun h => h.mono hs
  induction h with
  | output he =>
      obtain rfl := List.mem_singleton.mp hn
      exact .inr (.output he)
  | assignment he =>
      obtain rfl := List.mem_singleton.mp hn
      exact .inr (.assignment he)
  | inclusion hword hstop hs =>
      obtain rfl := List.mem_singleton.mp hn
      exact .inr (.inclusion hword hstop hs)
  | branch ha ih =>
      rcases List.mem_cons.mp hn with rfl | hn
      · exact .inr (.branch ha)
      · exact ih hn
  | loop he hb ho hs ihb iho =>
      rcases List.mem_cons.mp hn with rfl | hn
      · exact .inr (.loop he hb ho hs)
      · rcases List.mem_append.mp hn with hn | hn
        · exact hmono (sublist_of_middle hs) (ihb hn)
        · exact hmono (sublist_of_right hs) (iho hn)
  | definition hp hb hs ih =>
      rcases List.mem_cons.mp hn with rfl | hn
      · exact .inr (.definition hp hb hs)
      · exact hmono (sublist_of_right hs) (ih hn)
  | callBlock hc hb hs ih =>
      rcases List.mem_cons.mp hn with rfl | hn
      · exact .inr (.callBlock hc hb hs)
      · exact hmono (sublist_of_right hs) (ih hn)
  | empty | noArms => cases hn
  | text _ _ hs ih =>
      rw [Piece.walk, Template.walkAll_append] at hn
      rcases List.mem_append.mp hn with hn | hn
      · exact hmono (sublist_of_left hs) (ih hn)
      · obtain rfl := List.mem_singleton.mp hn
        exact .inl ⟨_, _, rfl⟩
  | append _ _ hs ihns ihn =>
      rw [Piece.walk, Template.walkAll_append] at hn
      rcases List.mem_append.mp hn with hn | hn
      · exact hmono (sublist_of_left hs) (ihns hn)
      · rw [walkAll, walkAll, List.append_nil] at hn
        exact hmono (sublist_of_right hs) (ihn hn)
  | arm _ _ _ hs iha ihb =>
      rw [Piece.walk, Template.walkArms_append] at hn
      rcases List.mem_append.mp hn with hn | hn
      · exact hmono (sublist_of_left (sublist_of_left hs)) (iha hn)
      · rw [walkArms, walkArms, List.append_nil] at hn
        exact hmono (sublist_of_right hs) (ihb hn)

theorem SpellsParameters.nodup {ts : List Token} {params : List (Parameter Expr)}
    (h : SpellsParameters ts params) : (params.map (·.name)).Nodup := by
  induction h with
  | none => exact List.nodup_nil
  | @more _ _ _ ps p _ hnew _ _ ih =>
      rw [List.map_append]
      refine List.nodup_append.mpr ⟨ih, List.nodup_singleton _, ?_⟩
      rintro name hname _ hp rfl
      obtain rfl := List.mem_singleton.mp hp
      exact hnew hname

/-- The parameters of every macro in the table of a parsed template have names of their own. -/
theorem Composes.params_nodup {ts : List Token} {t : Template} (h : Composes ts (.nodes t.body))
    {d : MacroDef} (hd : d ∈ t.macroTable.1.definitions) : (d.params.map (·.name)).Nodup := by
  rcases h.of_mem_walk (t.mem_macroTable hd) with ⟨value, s, htext⟩ | hnode
  · cases htext
  · cases hnode with
    | definition hp => exact hp.parameters.nodup

end TemplateCompiler
