import TemplateCompiler.FileSystem

/-!
# One text at each place

Paths that resolve to one place lead to the same text, as far as they lead anywhere: where a path is
followed component by component, it passes the components of its resolved path, and those it leaves
again. Only the directory that relative paths start from has to be a resolved path itself.
-/

namespace TemplateCompiler

namespace Path

theorem climb_of_notMem {parts : List String} (h : ".." ∉ parts) (before rest : List String) :
    climb before (parts ++ rest) = climb (parts.reverse ++ before) rest := by
  induction parts generalizing before with
  | nil => rfl
  | cons part parts ih =>
      obtain ⟨hpart, hparts⟩ := List.ne_and_not_mem_of_not_mem_cons h
      rw [List.cons_append, climb, if_neg (Ne.symm hpart), ih hparts, List.reverse_cons,
        List.append_assoc, List.singleton_append]

end Path

namespace FileSystem

variable {fs : FileSystem}

/-- What is found by following components is what is at the place they climb to. -/
theorem entry?_of_follow {place parts : List String} {e : Entry}
    (h : fs.follow place parts = .ok e) : fs.entry? (Path.climb place.reverse parts) = some e := by
  induction parts generalizing place with
  | nil =>
      rw [follow] at h
      rw [Path.climb, List.reverse_reverse]
      split at h
      · cases h
      · next e' he =>
          obtain rfl := Except.ok.inj h
          exact he
  | cons part rest ih =>
      rw [follow] at h
      rw [Path.climb]
      split at h
      · cases h
      · cases h
      · split at h
        · cases h
        · have hrest := ih h
          by_cases hup : part = ".."
          · rw [if_pos hup] at hrest ⊢
            rwa [← List.tail_reverse] at hrest
          · rw [if_neg hup] at hrest ⊢
            rwa [List.reverse_append] at hrest

/-- The text of the file at a resolved place. -/
def textAt (fs : FileSystem) (place : Path) : Except ReadFault String :=
  match fs.entry? place.parts with
  | none => .error .notFound
  | some .directory => .error .isDirectory
  | some (.file bytes) =>
    match Text.Utf8.decode bytes with
    | .ok text => .ok (String.ofList (unifyLineEnds text))
    | .error m => .error (.malformed m)

theorem find_of_isFile {p : Path} (h : fs.isFile p = .ok true) :
    ∃ bytes, fs.find p = .ok (.file bytes) := by
  unfold isFile at h
  split at h
  · next bytes hfind => exact ⟨bytes, hfind⟩
  · cases h
  · cases h

/-- What can be a file has a resolved path. -/
theorem locate_of_isFile {p : Path} (h : fs.isFile p = .ok true) :
    fs.locate p = .ok (fs.resolve p) := by
  obtain ⟨bytes, hfind⟩ := find_of_isFile h
  unfold find at hfind
  unfold locate
  split at hfind
  · cases hfind
  · next hzero => rw [if_neg hzero]

section

variable (hhere : ".." ∉ fs.here)

include hhere

theorem entry?_of_find {p : Path} {e : Entry} (h : fs.find p = .ok e) :
    fs.entry? (fs.resolve p).parts = some e := by
  unfold find at h
  split at h
  · cases h
  · split at h
    · cases h
    · have hentry := entry?_of_follow h
      rw [resolve, herePath, Path.resolve, Path.join]
      by_cases hroot : p.root = .relative
      · rw [if_pos hroot] at hentry ⊢
        rwa [Path.climb_of_notMem hhere, List.append_nil]
      · rw [if_neg hroot] at hentry ⊢
        exact hentry

theorem readText_of_find {p : Path} {bytes : List UInt8}
    (h : fs.find p = .ok (.file bytes)) : fs.readText p = fs.textAt (fs.resolve p) := by
  have hbytes : fs.readBytes p = .ok bytes := by rw [readBytes, h]
  rw [readText, textAt, entry?_of_find hhere h, hbytes]
  rfl

theorem readText_of_isFile {p : Path} (h : fs.isFile p = .ok true) :
    fs.readText p = fs.textAt (fs.resolve p) := by
  obtain ⟨bytes, hfind⟩ := find_of_isFile h
  exact readText_of_find hhere hfind

theorem textAt_of_readText {p : Path} {text : String}
    (h : fs.readText p = .ok text) : fs.textAt (fs.resolve p) = .ok text := by
  cases hfind : fs.find p with
  | error f =>
      have hbytes : fs.readBytes p = .error f := by rw [readBytes, hfind]
      rw [readText, hbytes] at h
      cases h
  | ok e =>
      cases e with
      | file bytes => rw [← readText_of_find hhere hfind, h]
      | directory =>
          have hbytes : fs.readBytes p = .error .isDirectory := by rw [readBytes, hfind]
          rw [readText, hbytes] at h
          cases h

end

end FileSystem

end TemplateCompiler
