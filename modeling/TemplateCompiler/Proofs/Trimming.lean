import Mathlib.Data.List.DropRight
import TemplateCompiler.Whitespace

/-!
# Trimming both ends of a text

A text between two tags is trimmed at both ends, each with a mode of its own. It is a run of blanks,
a core that starts and ends with something else, and another run of blanks, or it is one run of
blanks and nothing else. Around a core the two ends do not meet. Where there is none, both modes act
on one run, one after the other, and that comes to what the stricter of them does. Either way the
order does not matter, and trimming once more changes nothing.

`Trimmed` says what is left in terms of the runs alone, without the functions that trim.
-/

namespace TemplateCompiler

namespace Text

/-! ## Blanks and cores -/

/-- Nothing but blanks. -/
def Blank (run : List Char) : Prop :=
  ∀ c ∈ run, isBlank c

/-- Something that neither starts nor ends with a blank. -/
structure Core (core : List Char) : Prop where
  ne_nil : core ≠ []
  first : ∀ c ∈ core.head?, isBlank c = false
  last : ∀ c ∈ core.getLast?, isBlank c = false

theorem Blank.reverse {run : List Char} (h : Blank run) : Blank run.reverse :=
  fun c hc => h c (List.mem_reverse.mp hc)

theorem Core.reverse {core : List Char} (h : Core core) : Core core.reverse where
  ne_nil := List.reverse_ne_nil_iff.mpr h.ne_nil
  first := by
    rw [List.head?_reverse]
    exact h.last
  last := by
    rw [List.getLast?_reverse]
    exact h.first

theorem head?_dropLeadingBlanks (text : List Char) :
    ∀ c ∈ (dropLeadingBlanks text).head?, isBlank c = false := by
  intro c hc
  have h := List.head?_dropWhile_not isBlank text
  rw [dropLeadingBlanks] at hc
  rwa [hc] at h

/-- A text is one run of blanks, or it has a core. -/
theorem blank_or_core (text : List Char) :
    Blank text ∨ ∃ before core after, text = before ++ core ++ after ∧
      Blank before ∧ Core core ∧ Blank after := by
  by_cases hblank : Blank text
  · exact .inl hblank
  · right
    have hfirst := head?_dropLeadingBlanks text
    have hsplit : text = leadingBlanks text ++ dropLeadingBlanks text :=
      List.takeWhile_append_dropWhile.symm
    have hrest : dropLeadingBlanks text ≠ [] := fun h => hblank (List.dropWhile_eq_nil_iff.mp h)
    generalize dropLeadingBlanks text = rest at hfirst hsplit hrest
    have hsplit' : rest = dropTrailingBlanks rest ++ trailingBlanks rest :=
      List.rdropWhile_append_rtakeWhile.symm
    have hcore : dropTrailingBlanks rest ≠ [] := by
      intro hnil
      obtain ⟨c, more, rfl⟩ := List.exists_cons_of_ne_nil hrest
      have hc := List.rdropWhile_eq_nil_iff.mp hnil c List.mem_cons_self
      rw [hfirst c rfl] at hc
      cases hc
    refine ⟨leadingBlanks text, dropTrailingBlanks rest, trailingBlanks rest, ?_,
      fun _ => List.mem_takeWhile_imp, ⟨hcore, ?_, ?_⟩, fun _ => List.mem_rtakeWhile_imp⟩
    · rw [List.append_assoc, ← hsplit']
      exact hsplit
    · rw [hsplit', List.head?_append_of_ne_nil _ hcore] at hfirst
      exact hfirst
    · intro c hc
      obtain ⟨_, rfl⟩ := List.mem_getLast?_eq_getLast hc
      exact Bool.eq_false_iff.mpr (List.rdropWhile_last_not isBlank rest hcore)

/-- The blanks in front of a core are found. -/
theorem takeWhile_core {run core : List Char} (hrun : Blank run) (hcore : Core core)
    (rest : List Char) :
    (run ++ (core ++ rest)).takeWhile isBlank = run ∧
      (run ++ (core ++ rest)).dropWhile isBlank = core ++ rest := by
  obtain ⟨c, more, rfl⟩ := List.exists_cons_of_ne_nil hcore.ne_nil
  have hc : ¬ isBlank c := Bool.eq_false_iff.mp (hcore.first c rfl)
  rw [List.takeWhile_append_of_pos hrun, List.dropWhile_append_of_pos hrun, List.cons_append,
    List.takeWhile_cons_of_neg hc, List.dropWhile_cons_of_neg hc, List.append_nil]
  exact ⟨rfl, rfl⟩

end Text

namespace Whitespace

open Text (Blank Core)

/-! ## Single runs -/

/-- What is left of a run of blanks. -/
inductive Leaves : Whitespace → List Char → List Char → Prop
  | kept {run} : Leaves .preserve run run
  | removed {run} : Leaves .suppress run []
  | newline {run} (h : '\n' ∈ run) : Leaves .minimize run ['\n']
  | space {run} (hne : run ≠ []) (h : '\n' ∉ run) : Leaves .minimize run [' ']
  | nothing : Leaves .minimize [] []

theorem leaves_iff {mode : Whitespace} {run left : List Char} :
    mode.Leaves run left ↔ mode.replace run = left := by
  constructor
  · intro h
    cases h with
    | kept => rfl
    | removed => rfl
    | newline h => simp [replace, List.ne_nil_of_mem h, h]
    | space hne h => simp [replace, hne, h]
    | nothing => rfl
  · rintro rfl
    cases mode with
    | preserve => exact .kept
    | suppress => exact .removed
    | minimize =>
        by_cases hnil : run = []
        · subst hnil
          exact .nothing
        · by_cases hline : '\n' ∈ run
          · simpa [replace, hnil, hline] using Leaves.newline hline
          · simpa [replace, hnil, hline] using Leaves.space hnil hline

/-- The mode that leaves less. -/
def stricter : Whitespace → Whitespace → Whitespace
  | .suppress, _ | _, .suppress => .suppress
  | .minimize, _ | _, .minimize => .minimize
  | .preserve, .preserve => .preserve

theorem stricter_comm (l r : Whitespace) : stricter l r = stricter r l := by
  cases l <;> cases r <;> rfl

theorem stricter_self (mode : Whitespace) : stricter mode mode = mode := by
  cases mode <;> rfl

theorem minimize_minimize (run : List Char) :
    minimize.replace (minimize.replace run) = minimize.replace run := by
  by_cases hnil : run = []
  · simp [replace, hnil]
  · by_cases hline : '\n' ∈ run
    · simp [replace, hnil, hline]
    · simp [replace, hnil, hline]

/-- Two modes that act on one run come to the stricter of them. -/
theorem replace_replace (l r : Whitespace) (run : List Char) :
    l.replace (r.replace run) = (stricter l r).replace run := by
  cases l <;> cases r <;> first | rfl | exact minimize_minimize run

theorem blank_replace {run : List Char} (h : Blank run) (mode : Whitespace) :
    Blank (mode.replace run) := by
  cases mode with
  | preserve => exact h
  | suppress => exact nofun
  | minimize =>
      have hline : Blank ['\n'] := List.forall_mem_singleton.mpr (by decide)
      have hspace : Blank [' '] := List.forall_mem_singleton.mpr (by decide)
      rw [replace]
      split
      · exact nofun
      · split <;> assumption

/-! ## Single ends -/

theorem trimLeft_blank {run : List Char} (h : Blank run) (mode : Whitespace) :
    mode.trimLeft run = mode.replace run := by
  have htake : Text.leadingBlanks run = run := List.takeWhile_eq_self_iff.mpr h
  have hdrop : Text.dropLeadingBlanks run = [] := List.dropWhile_eq_nil_iff.mpr h
  rw [trimLeft, htake, hdrop, List.append_nil]

theorem trimRight_blank {run : List Char} (h : Blank run) (mode : Whitespace) :
    mode.trimRight run = mode.replace run := by
  have htake : Text.trailingBlanks run = run := List.rtakeWhile_eq_self_iff.mpr h
  have hdrop : Text.dropTrailingBlanks run = [] := List.rdropWhile_eq_nil_iff.mpr h
  rw [trimRight, htake, hdrop, List.nil_append]

section

variable {before core after : List Char}

theorem trimLeft_core (hbefore : Blank before) (hcore : Core core) (mode : Whitespace) :
    mode.trimLeft (before ++ core ++ after) = mode.replace before ++ core ++ after := by
  obtain ⟨htake, hdrop⟩ := Text.takeWhile_core hbefore hcore after
  rw [trimLeft, Text.leadingBlanks, Text.dropLeadingBlanks, List.append_assoc, htake, hdrop,
    List.append_assoc]

theorem trimRight_core (hcore : Core core) (hafter : Blank after) (mode : Whitespace) :
    mode.trimRight (before ++ core ++ after) = before ++ core ++ mode.replace after := by
  obtain ⟨htake, hdrop⟩ := Text.takeWhile_core hafter.reverse hcore.reverse before.reverse
  rw [trimRight, Text.trailingBlanks, Text.dropTrailingBlanks, List.reverse_append,
    List.reverse_append, htake, hdrop, List.reverse_append, List.reverse_reverse,
    List.reverse_reverse, List.reverse_reverse]

end

/-! ## Both ends -/

/-- What is left of a text when its left end is trimmed with `l` and its right end with `r`. -/
inductive Trimmed (l r : Whitespace) : List Char → List Char → Prop
  /-- Each end has a run of its own, and what is between them stays. -/
  | around {before core after before' after' : List Char} (hbefore : Blank before)
      (hcore : Core core) (hafter : Blank after) (hleft : l.Leaves before before')
      (hright : r.Leaves after after') :
      Trimmed l r (before ++ core ++ after) (before' ++ core ++ after')
  /-- The whole text is removed from one of its ends. -/
  | removed {run : List Char} (hrun : Blank run) (h : l = .suppress ∨ r = .suppress) :
      Trimmed l r run []
  | minimised {run left : List Char} (hrun : Blank run) (hl : l ≠ .suppress) (hr : r ≠ .suppress)
      (h : l = .minimize ∨ r = .minimize) (hleft : Leaves .minimize run left) :
      Trimmed l r run left
  | kept {run : List Char} (hrun : Blank run) (hl : l = .preserve) (hr : r = .preserve) :
      Trimmed l r run run

variable {l r : Whitespace}

theorem trim_blank {run : List Char} (h : Blank run) :
    r.trimRight (l.trimLeft run) = (stricter l r).replace run := by
  rw [trimLeft_blank h, trimRight_blank (blank_replace h l), replace_replace, stricter_comm]

theorem trim_core {before core after : List Char} (hbefore : Blank before) (hcore : Core core)
    (hafter : Blank after) : r.trimRight (l.trimLeft (before ++ core ++ after)) =
      l.replace before ++ core ++ r.replace after := by
  rw [trimLeft_core hbefore hcore, trimRight_core hcore hafter]

theorem trim_comm (l r : Whitespace) (text : List Char) :
    l.trimLeft (r.trimRight text) = r.trimRight (l.trimLeft text) := by
  rcases Text.blank_or_core text with hblank | ⟨before, core, after, rfl, hbefore, hcore, hafter⟩
  · rw [trim_blank hblank, trimRight_blank hblank, trimLeft_blank (blank_replace hblank r),
      replace_replace]
  · rw [trim_core hbefore hcore hafter, trimRight_core hcore hafter, trimLeft_core hbefore hcore]

theorem trim_trim (l r : Whitespace) (text : List Char) :
    r.trimRight (l.trimLeft (r.trimRight (l.trimLeft text))) = r.trimRight (l.trimLeft text) := by
  rcases Text.blank_or_core text with hblank | ⟨before, core, after, rfl, hbefore, hcore, hafter⟩
  · rw [trim_blank hblank, trim_blank (blank_replace hblank _), replace_replace, stricter_self]
  · rw [trim_core hbefore hcore hafter,
      trim_core (blank_replace hbefore l) hcore (blank_replace hafter r), replace_replace,
      replace_replace, stricter_self, stricter_self]

/-- One run of blanks is trimmed by its rule. -/
theorem trimmed_of_blank {run : List Char} (h : Blank run) :
    Trimmed l r run ((stricter l r).replace run) := by
  have hmin : Leaves .minimize run (minimize.replace run) := leaves_iff.mpr rfl
  cases l with
  | suppress => exact .removed h (.inl rfl)
  | minimize =>
      cases r with
      | suppress => exact .removed h (.inr rfl)
      | minimize => exact .minimised h nofun nofun (.inl rfl) hmin
      | preserve => exact .minimised h nofun nofun (.inl rfl) hmin
  | preserve =>
      cases r with
      | suppress => exact .removed h (.inr rfl)
      | minimize => exact .minimised h nofun nofun (.inr rfl) hmin
      | preserve => exact .kept h rfl rfl

theorem trimmed_trim (l r : Whitespace) (text : List Char) :
    Trimmed l r text (r.trimRight (l.trimLeft text)) := by
  rcases Text.blank_or_core text with hblank | ⟨before, core, after, rfl, hbefore, hcore, hafter⟩
  · rw [trim_blank hblank]
    exact trimmed_of_blank hblank
  · rw [trim_core hbefore hcore hafter]
    exact .around hbefore hcore hafter (leaves_iff.mpr rfl) (leaves_iff.mpr rfl)

theorem Trimmed.eq_trim {text left : List Char} (h : Trimmed l r text left) :
    left = r.trimRight (l.trimLeft text) := by
  cases h with
  | around hbefore hcore hafter hleft hright =>
      rw [trim_core hbefore hcore hafter, leaves_iff.mp hleft, leaves_iff.mp hright]
  | removed hrun h =>
      rw [trim_blank hrun]
      rcases h with rfl | rfl
      · rfl
      · rw [stricter_comm]
        rfl
  | minimised hrun hl hr h hleft =>
      rw [trim_blank hrun, ← leaves_iff.mp hleft]
      rcases h with rfl | rfl
      · cases r with
        | suppress => exact absurd rfl hr
        | minimize => rfl
        | preserve => rfl
      · cases l with
        | suppress => exact absurd rfl hl
        | minimize => rfl
        | preserve => rfl
  | kept hrun hl hr =>
      subst hl hr
      rw [trim_blank hrun]
      rfl

/-- What trimming both ends leaves is as the rules of the runs say, in whichever order the ends are
trimmed, and it is left as it is when they are trimmed again. -/
theorem trim_ends (l r : Whitespace) (text : List Char) :
    (∀ left, Trimmed l r text left ↔ left = r.trimRight (l.trimLeft text)) ∧
      l.trimLeft (r.trimRight text) = r.trimRight (l.trimLeft text) ∧
      r.trimRight (l.trimLeft (r.trimRight (l.trimLeft text))) = r.trimRight (l.trimLeft text) := by
  refine ⟨fun left => ⟨Trimmed.eq_trim, ?_⟩, trim_comm l r text, trim_trim l r text⟩
  rintro rfl
  exact trimmed_trim l r text

/-- One line feed is left of all blanks, though the right end is to be kept. -/
example : preserve.trimRight (minimize.trimLeft " \n\u2003".toList) = ['\n'] := by
  decide

end Whitespace

end TemplateCompiler
