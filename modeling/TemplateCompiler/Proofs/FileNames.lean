import Mathlib.Data.List.Basic
import TemplateCompiler.FileSystem

/-!
# One text under each name

A path is displayed by its root and its components, and can be read back from that unless a
component is empty, stands for the place it is in, or holds a separator. No file has such a name, so
of all paths at most one that leads to a file is displayed in a given way, and what goes by one name
is one text.
-/

namespace TemplateCompiler

namespace Text

variable {separator : Char} {piece : List Char}

theorem split_of_notMem (h : separator ∉ piece) : split separator piece = [piece] := by
  induction piece with
  | nil => rfl
  | cons c piece ih =>
      obtain ⟨hc, hpiece⟩ := List.ne_and_not_mem_of_not_mem_cons h
      rw [split, ih hpiece]
      exact if_neg (Ne.symm hc)

theorem split_ne_nil (separator : Char) (text : List Char) : split separator text ≠ [] := by
  cases text with
  | nil => nofun
  | cons c rest =>
      rw [split]
      split
      · nofun
      · split <;> nofun

theorem split_separator (separator : Char) (rest : List Char) :
    split separator (separator :: rest) = [] :: split separator rest := by
  rw [split]
  cases hrest : split separator rest with
  | nil => exact absurd hrest (split_ne_nil separator rest)
  | cons first more => exact if_pos rfl

theorem split_append (h : separator ∉ piece) (rest : List Char) :
    split separator (piece ++ separator :: rest) = piece :: split separator rest := by
  induction piece with
  | nil => exact split_separator separator rest
  | cons c piece ih =>
      obtain ⟨hc, hpiece⟩ := List.ne_and_not_mem_of_not_mem_cons h
      rw [List.cons_append, split, ih hpiece]
      exact if_neg (Ne.symm hc)

theorem notMem_of_mem_split {text : List Char} (h : piece ∈ split separator text) :
    separator ∉ piece := by
  induction text generalizing piece with
  | nil =>
      obtain rfl := List.mem_singleton.mp h
      exact List.not_mem_nil
  | cons c rest ih =>
      rw [split] at h
      split at h
      · next hnil => exact absurd hnil (split_ne_nil separator rest)
      · next first more hrest =>
          have hold : ∀ piece ∈ first :: more, separator ∉ piece := fun _ hmem => ih (hrest ▸ hmem)
          split at h
          · rcases List.mem_cons.mp h with rfl | hmem
            · exact List.not_mem_nil
            · exact hold piece hmem
          · next hc =>
              rcases List.mem_cons.mp h with rfl | hmem
              · have hfirst := hold first List.mem_cons_self
                exact List.not_mem_cons_of_ne_of_not_mem (Ne.symm hc) hfirst
              · exact hold piece (List.mem_cons_of_mem first hmem)

/-- Pieces that are joined come apart again. -/
theorem split_intercalate {pieces : List (List Char)} (hne : pieces ≠ [])
    (h : ∀ piece ∈ pieces, separator ∉ piece) :
    split separator ([separator].intercalate pieces) = pieces := by
  induction pieces with
  | nil => exact absurd rfl hne
  | cons piece pieces ih =>
      obtain ⟨hpiece, hpieces⟩ := List.forall_mem_cons.mp h
      cases pieces with
      | nil => rw [List.intercalate_singleton, split_of_notMem hpiece]
      | cons next more =>
          have hrest := ih nofun hpieces
          rw [List.intercalate_cons_cons, List.append_assoc, List.singleton_append,
            split_append hpiece, hrest]

end Text

namespace Path

/-! ## Paths as they are displayed -/

/-- A component that is displayed as one. -/
def IsPart (part : String) : Prop :=
  part ≠ "" ∧ part ≠ "." ∧ '/' ∉ part.toList

instance : DecidablePred IsPart :=
  fun part => inferInstanceAs (Decidable (part ≠ "" ∧ part ≠ "." ∧ '/' ∉ part.toList))

theorem rootOf_text (root : PathRoot) {rest : List Char} (h : ∀ c ∈ rest.head?, c ≠ '/') :
    rootOf (root.text.toList ++ rest) = root := by
  cases rest with
  | nil => cases root <;> rfl
  | cons c rest =>
      have hc : c ≠ '/' := h c rfl
      cases root <;> simp [PathRoot.text, rootOf, hc]

/-- The separators of the root begin no component. -/
theorem parts_ofString_root (root : PathRoot) (rest : String) :
    (ofString (root.text ++ rest)).parts = (ofString rest).parts := by
  unfold ofString
  rw [String.toList_append]
  cases root with
  | relative => rfl
  | absolute =>
      change List.filter _ (List.map _ (Text.split '/' ('/' :: rest.toList))) = _
      rw [Text.split_separator]
      rfl
  | doubled =>
      change List.filter _ (List.map _ (Text.split '/' ('/' :: '/' :: rest.toList))) = _
      rw [Text.split_separator, Text.split_separator]
      rfl

/-- Components that are displayed as such can be read back. -/
theorem parts_ofString_intercalate {parts : List String} (h : ∀ part ∈ parts, IsPart part) :
    (ofString ("/".intercalate parts)).parts = parts := by
  cases parts with
  | nil => rfl
  | cons first more =>
      have hsplit : Text.split '/' ("/".intercalate (first :: more)).toList =
          (first :: more).map String.toList := by
        rw [String.toList_intercalate]
        refine Text.split_intercalate (by simp) (List.forall_mem_map.mpr fun part hp => ?_)
        exact (h part hp).2.2
      unfold ofString
      rw [hsplit, List.map_map]
      have hparts : (first :: more).map (String.ofList ∘ String.toList) = first :: more := by
        simp
      rw [hparts]
      exact List.filter_eq_self.mpr fun part hp => by simp [(h part hp).1, (h part hp).2.1]

/-- The first component is displayed first. -/
theorem head_intercalate {parts : List String} (h : ∀ part ∈ parts, IsPart part) :
    ∀ c ∈ ("/".intercalate parts).toList.head?, c ≠ '/' := by
  cases parts with
  | nil => nofun
  | cons first more =>
      obtain ⟨hempty, -, hseparator⟩ := h first List.mem_cons_self
      have hne : first.toList ≠ [] := fun hnil => hempty (String.toList_eq_nil_iff.mp hnil)
      have hhead : ("/".intercalate (first :: more)).toList.head? = first.toList.head? := by
        rw [String.toList_intercalate, List.map_cons]
        cases more with
        | nil => rw [List.map_nil, List.intercalate_singleton]
        | cons next more =>
            rw [List.map_cons, List.intercalate_cons_cons, List.append_assoc,
              List.head?_append_of_ne_nil _ hne]
      rintro c hc rfl
      rw [hhead] at hc
      exact hseparator (List.mem_of_mem_head? hc)

/-- A path can be read back from how it is displayed. -/
theorem ofString_toString {p : Path} (h : ∀ part ∈ p.parts, IsPart part) :
    ofString p.toString = p := by
  unfold toString
  split
  · next hdot =>
      obtain ⟨hroot, hparts⟩ := Bool.and_eq_true_iff.mp hdot
      obtain ⟨root, parts⟩ := p
      obtain rfl : root = .relative := of_decide_eq_true hroot
      obtain rfl : parts = [] := List.isEmpty_iff.mp hparts
      rfl
  · have hroot : (ofString (p.root.text ++ "/".intercalate p.parts)).root = p.root := by
      rw [ofString, String.toList_append]
      exact rootOf_text p.root (head_intercalate h)
    have hparts : (ofString (p.root.text ++ "/".intercalate p.parts)).parts = p.parts := by
      rw [parts_ofString_root, parts_ofString_intercalate h]
    exact congrArg₂ Path.mk hroot hparts

/-- What is read as a path consists of components that are displayed as such. -/
theorem isPart_ofString (text : String) : ∀ part ∈ (ofString text).parts, IsPart part := by
  intro part hpart
  obtain ⟨hmem, hkept⟩ := List.mem_filter.mp hpart
  obtain ⟨piece, hpiece, rfl⟩ := List.mem_map.mp hmem
  rw [Bool.and_eq_true, decide_eq_true_eq, decide_eq_true_eq] at hkept
  refine ⟨hkept.1, hkept.2, ?_⟩
  rw [String.toList_ofList]
  exact Text.notMem_of_mem_split hpiece

/-- Paths that are displayed alike are the same. -/
theorem eq_of_toString {p q : Path} (hp : ∀ part ∈ p.parts, IsPart part)
    (hq : ∀ part ∈ q.parts, IsPart part) (h : p.toString = q.toString) : p = q := by
  rw [← ofString_toString hp, h, ofString_toString hq]

end Path

/-! ## Names of files -/

namespace FileSystem

variable {fs : FileSystem}

/-- No file or directory has a name that would not be displayed as a component. -/
def WellNamed (fs : FileSystem) : Prop :=
  ∀ entry ∈ fs.entries, ∀ part ∈ entry.1, Path.IsPart part

instance : DecidablePred WellNamed :=
  fun fs => inferInstanceAs (Decidable (∀ entry ∈ fs.entries, ∀ part ∈ entry.1, Path.IsPart part))

theorem exists_entry_of_follow {place parts : List String} {e : Entry}
    (h : fs.follow place parts = .ok e) : ∃ here, fs.entry? place = some here := by
  cases hplace : fs.entry? place with
  | some here => exact ⟨here, rfl⟩
  | none => cases parts <;> simp [follow, hplace] at h

section

variable (hfs : fs.WellNamed)

include hfs

theorem WellNamed.isPart_of_entry {place : List String} {e : Entry}
    (h : fs.entry? place = some e) : ∀ part ∈ place, Path.IsPart part := by
  unfold entry? at h
  split at h
  · next hempty =>
      rw [List.isEmpty_iff.mp hempty]
      exact List.forall_mem_nil _
  · obtain ⟨before, after, hentries, -⟩ := List.lookup_eq_some_iff.mp h
    exact hfs (place, e) (hentries ▸ List.mem_append_right _ List.mem_cons_self)

/-- Each component that is followed is the name of something, or leads to a parent. -/
theorem WellNamed.isPart_of_follow {place parts : List String} {e : Entry}
    (h : fs.follow place parts = .ok e) : ∀ part ∈ parts, Path.IsPart part := by
  induction parts generalizing place with
  | nil => exact List.forall_mem_nil _
  | cons part rest ih =>
      rw [follow] at h
      split at h
      · cases h
      · cases h
      · split at h
        · cases h
        · refine List.forall_mem_cons.mpr ⟨?_, ih h⟩
          by_cases hup : part = ".."
          · rw [hup]
            decide
          · rw [if_neg hup] at h
            obtain ⟨here, hhere⟩ := exists_entry_of_follow h
            exact hfs.isPart_of_entry hhere part (List.mem_append_right _ List.mem_cons_self)

theorem WellNamed.isPart_of_readText {p : Path} {text : String}
    (h : fs.readText p = .ok text) : ∀ part ∈ p.parts, Path.IsPart part := by
  cases hfind : fs.find p with
  | error fault =>
      rw [readText, readBytes, hfind] at h
      cases h
  | ok e =>
      unfold find at hfind
      split at hfind
      · cases hfind
      · split at hfind
        · cases hfind
        · exact hfs.isPart_of_follow hfind

/-- What goes by one name is one text. -/
theorem WellNamed.text_eq {p q : Path} {text text' : String}
    (hp : fs.readText p = .ok text) (hq : fs.readText q = .ok text')
    (hname : p.toString = q.toString) : text = text' := by
  obtain rfl := Path.eq_of_toString (hfs.isPart_of_readText hp) (hfs.isPart_of_readText hq) hname
  exact Except.ok.inj (hp.symm.trans hq)

end

end FileSystem

end TemplateCompiler
