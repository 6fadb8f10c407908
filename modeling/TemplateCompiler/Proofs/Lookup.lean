import Mathlib.Data.List.Nodup

/-!
# Looking up entries

Lists of keys and values in which no key occurs twice.
-/

namespace TemplateCompiler

variable {κ α : Type} [DecidableEq κ] {entries : List (κ × α)} {k : κ} {a : α}

theorem lookup_isSome_iff_mem : (entries.lookup k).isSome ↔ k ∈ entries.map Prod.fst := by
  rw [List.lookup_isSome_iff, List.mem_map]
  exact exists_congr fun entry => and_congr_right fun _ => beq_iff_eq.trans eq_comm

theorem lookup_eq_none_iff_notMem : entries.lookup k = none ↔ k ∉ entries.map Prod.fst := by
  rw [← lookup_isSome_iff_mem, Option.not_isSome_iff_eq_none]

theorem mem_of_lookup (h : entries.lookup k = some a) : (k, a) ∈ entries := by
  obtain ⟨before, after, rfl, -⟩ := List.lookup_eq_some_iff.mp h
  exact List.mem_append_right _ List.mem_cons_self

theorem lookup_of_mem (hnodup : (entries.map Prod.fst).Nodup) (h : (k, a) ∈ entries) :
    entries.lookup k = some a := by
  induction entries with
  | nil => cases h
  | cons entry entries ih =>
      obtain ⟨hnew, hnodup⟩ := List.nodup_cons.mp hnodup
      rw [List.lookup_cons]
      rcases List.mem_cons.mp h with rfl | h
      · simp
      · have hne : k ≠ entry.1 := by
          rintro rfl
          exact hnew (List.mem_map.mpr ⟨_, h, rfl⟩)
        rw [beq_false_of_ne hne]
        exact ih hnodup h

theorem lookup_reverse (hnodup : (entries.map Prod.fst).Nodup) :
    entries.reverse.lookup k = entries.lookup k := by
  have hreverse : (entries.reverse.map Prod.fst).Nodup := by
    rwa [List.map_reverse, List.nodup_reverse]
  cases h : entries.lookup k with
  | none =>
      rw [lookup_eq_none_iff_notMem, List.map_reverse, List.mem_reverse]
      exact lookup_eq_none_iff_notMem.mp h
  | some a => exact lookup_of_mem hreverse (List.mem_reverse.mpr (mem_of_lookup h))

omit [DecidableEq κ] in
theorem map_fst_zip_eq_take (keys : List κ) (values : List α) :
    (keys.zip values).map Prod.fst = keys.take values.length := by
  induction keys generalizing values with
  | nil => simp
  | cons key keys ih => cases values <;> simp [ih]

/-- Keys that are paired with values one by one, as far as there are values. -/
theorem lookup_zip {keys : List κ} {values : List α} {i : Nat} (hnodup : keys.Nodup)
    (hi : keys[i]? = some k) : (keys.zip values).lookup k = values[i]? := by
  induction keys generalizing values i with
  | nil => simp at hi
  | cons key keys ih =>
      obtain ⟨hnew, hnodup⟩ := List.nodup_cons.mp hnodup
      cases values with
      | nil => simp
      | cons value values =>
          rw [List.zip_cons_cons, List.lookup_cons]
          cases i with
          | zero =>
              obtain rfl := Option.some.inj hi
              simp
          | succ i =>
              have hne : k ≠ key := by
                rintro rfl
                exact hnew (List.mem_of_getElem? hi)
              rw [beq_false_of_ne hne]
              exact ih hnodup hi

end TemplateCompiler
