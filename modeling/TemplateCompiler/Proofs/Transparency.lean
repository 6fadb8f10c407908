import TemplateCompiler.Proofs.Stopping

/-!
# What was asked before makes no difference

A compiler that has a memory answers as a new one does, as long as no answer is that the depth limit
is exceeded. What it remembers are outcomes that do not depend on a stack, and those agree wherever
they were made. Cycles are no exception, though the stack decides where one is met: no file that
leads back to the stack is remembered.

The depth limit is one. A remembered success is used however long the stack has become, so a chain
of includes that is too long for a new compiler can be put together from parts that are remembered.
-/

namespace TemplateCompiler

namespace Compiler

variable {c : Compiler} {fs : FileSystem} {m m' : Memory} {place : Path} {o o' : Outcome}

variable (hhere : ".." ∉ fs.here)

/-- The same verdict for the same reasons. -/
def SameAnswer (comp comp' : Compilation) : Prop :=
  comp'.ok = comp.ok ∧ comp'.diagnostics.map (·.message) = comp.diagnostics.map (·.message)

theorem SameAnswer.of_nameless {comp comp' : Compilation}
    (h : nameless comp.diagnostics = nameless comp'.diagnostics) : SameAnswer comp comp' := by
  have hmessages : ∀ diagnostics : List Diagnostic,
      (nameless diagnostics).map (·.message) = diagnostics.map (·.message) := by
    intro diagnostics
    rw [nameless, List.map_map]
    rfl
  have hsame : comp'.diagnostics.map (·.message) = comp.diagnostics.map (·.message) := by
    rw [← hmessages, ← hmessages comp.diagnostics, h]
  have hempty := congrArg List.isEmpty hsame
  rw [List.isEmpty_map, List.isEmpty_map] at hempty
  exact ⟨hempty, hsame⟩

/-- No way on from a file is longer than the depth limit admits, unless it goes round a cycle. -/
def Shallow (c : Compiler) (fs : FileSystem) (place : Path) : Prop :=
  ∀ chain, chain ≠ [] → (place :: chain).IsChain (Includes c fs) → (place :: chain).Nodup →
    ((place :: chain).length : Int) ≤ c.maxIncludeDepth

theorem Shallow.roomy (h : Shallow c fs place) : Roomy c fs [] place where
  nodup := List.nodup_singleton place
  room := h

theorem Ahead.start (h : ¬ ReportsLimit c o.compilation.diagnostics ∨ Roomy c fs [] place) :
    Ahead c fs [] [] place o :=
  ⟨nofun, h⟩

theorem Accounted.extends (h : Accounted c fs m) : Extends c fs [] [] m where
  kept := .nil
  added key comp hlookup := by
    obtain ⟨hof, from', hbuilt⟩ := h key comp hlookup
    exact .inr ⟨hof, from', nofun, hbuilt⟩

section

include hhere

theorem Includes.mem_entries {next : Path} (h : Includes c fs place next) :
    next ∈ fs.entries.map fun entry => ⟨.absolute, entry.1⟩ := by
  obtain ⟨_, _, _, found, -, -, hfind, rfl⟩ := h
  obtain ⟨bytes, hfile⟩ := fs.find_of_isFile (isFile_of_findTemplate hfind)
  have hentry := fs.entry?_of_find hhere hfile
  rw [FileSystem.entry?] at hentry
  split at hentry
  · cases hentry
  · obtain ⟨before, after, hentries, -⟩ := List.lookup_eq_some_iff.mp hentry
    rw [hentries]
    exact List.mem_map.mpr ⟨_, List.mem_append_right _ List.mem_cons_self, rfl⟩

theorem subset_entries_of_isChain {chain : List Path}
    (h : (place :: chain).IsChain (Includes c fs)) :
    chain ⊆ fs.entries.map fun entry => ⟨.absolute, entry.1⟩ := by
  induction chain generalizing place with
  | nil => exact List.nil_subset _
  | cons next chain ih =>
      obtain ⟨hnext, hchain⟩ := List.isChain_cons_cons.mp h
      exact List.cons_subset.mpr ⟨hnext.mem_entries hhere, ih hchain⟩

/-- Where there are fewer files than the depth limit admits, no way on is too long. -/
theorem Shallow.of_length
    (h : (fs.entries.length : Int) < c.maxIncludeDepth) : Shallow c fs place := by
  intro chain _ hchain hnodup
  have hsub := subset_entries_of_isChain hhere hchain
  have hlength := (List.subperm_of_subset (List.nodup_cons.mp hnodup).2 hsub).length_le
  rw [List.length_map] at hlength
  rw [List.length_cons]
  omega

/-- What two compilers make of one file agrees, whatever they remember. -/
theorem Arrives.agree (hm : Accounted c fs m) (hm' : Accounted c fs m')
    {from' from'' : List Path} (h : Built c fs [] m from' o) (h' : Built c fs [] m' from'' o')
    (ha : Arrives fs [] m [] place from' o) (ha' : Arrives fs [] m' [] place from'' o')
    (hlimit : ¬ ReportsLimit c o.compilation.diagnostics ∨ Roomy c fs [] place)
    (hlimit' : ¬ ReportsLimit c o'.compilation.diagnostics ∨ Roomy c fs [] place) :
    SameAnswer o.compilation o'.compilation := by
  have hahead : Ahead c fs [] [] place o ∧ Ahead c fs [] [] place o' :=
    ⟨.start hlimit, .start hlimit'⟩
  have hcomparable := ha.comparable hhere hm.extends hm'.extends h h' ha' fun _ => ⟨rfl, hahead⟩
  exact .of_nameless (h.agree hhere hm.extends hm'.extends h' ha.unit ha'.unit hcomparable)

end

/-! ## Requests -/

/-- What holds for all files and all that was asked before. -/
structure Transparent (c : Compiler) (fs : FileSystem) : Prop where
  /-- If answers differ, one of them is that the depth limit is exceeded. -/
  agrees : ∀ (history : List Request) (p : Path) (comp comp' : Compilation) (s s' : State),
    c.compileFile fs p {} = .ok comp s →
    c.compileFile fs p (State.after c fs history) = .ok comp' s' →
    ¬ ReportsLimit c comp.diagnostics → ¬ ReportsLimit c comp'.diagnostics → SameAnswer comp comp'
  /-- Where no chain of includes is too long, there is an answer whenever a new compiler has one,
  and it is the same. -/
  shallow : ∀ (history : List Request) (p : Path) (comp : Compilation) (s : State),
    Shallow c fs (fs.resolve p) → c.compileFile fs p {} = .ok comp s →
    ∃ comp' s', c.compileFile fs p (State.after c fs history) = .ok comp' s' ∧ SameAnswer comp comp'

/-- A compiler that has a memory answers as a new one does, unless the depth limit is met. -/
theorem compileFile_transparent (c : Compiler) (fs : FileSystem) (hhere : ".." ∉ fs.here) :
    Transparent c fs := by
  have hagree : ∀ (history : List Request) (p : Path) (comp comp' : Compilation) (s s' : State),
      c.compileFile fs p {} = .ok comp s →
      c.compileFile fs p (State.after c fs history) = .ok comp' s' →
      (¬ ReportsLimit c comp.diagnostics ∨ Roomy c fs [] (fs.resolve p)) →
      (¬ ReportsLimit c comp'.diagnostics ∨ Roomy c fs [] (fs.resolve p)) →
        SameAnswer comp comp' := by
    intro history p comp comp' s s' hrun hrun' hlimit hlimit'
    have hnew : Accounted c fs ({} : State).memo := Accounted.nil
    have hold := State.accounted_after c fs history
    obtain ⟨hextends, o, from', rfl, ha, hbuilt⟩ :=
      (compileFile_ends p hnew Memory.Kept.nil).of_ok hrun
    obtain ⟨hextends', o', from'', rfl, ha', hbuilt'⟩ :=
      (compileFile_ends p hold Memory.Kept.nil).of_ok hrun'
    exact ha.agree hhere (hextends.accounted hnew) (hextends'.accounted hold) hbuilt hbuilt' ha'
      hlimit hlimit'
  refine ⟨?_, ?_⟩
  · intro history p comp comp' s s' hrun hrun' hsilent hsilent'
    exact hagree history p comp comp' s s' hrun hrun' (.inl hsilent) (.inl hsilent')
  · intro history p comp s hshallow hrun
    have hroomy := hshallow.roomy
    obtain ⟨comp', s', hrun'⟩ := compileFile_returns hhere hroomy hrun history
    exact ⟨comp', s', hrun',
      hagree history p comp comp' s s' hrun hrun' (.inr hroomy) (.inr hroomy)⟩

/-- Two files that include each other, where the second and a broken file behind it were asked for
before. -/
theorem transparent_of_mutual_includes :
    let fs : FileSystem :=
      ⟨["site"], [(["site"], .directory),
        (["site", "a"], .file "\x7b% include 'b' %\x7d".toUTF8.toList),
        (["site", "b"], .file "\x7b% include 'a' %\x7d\x7b% include 'c' %\x7d".toUTF8.toList),
        (["site", "c"], .file "\x7b% if %\x7d".toUTF8.toList)]⟩
    let c : Compiler := ⟨.withDirs [], none, none, 16⟩
    let history : List Request := [.file (.ofString "b"), .file (.ofString "c")]
    ".." ∉ fs.here ∧ Shallow c fs (fs.resolve (.ofString "a")) ∧ ∃ comp comp' s s',
      c.compileFile fs (.ofString "a") {} = .ok comp s ∧ comp.diagnostics.length = 3 ∧
        c.compileFile fs (.ofString "a") (State.after c fs history) = .ok comp' s' ∧
          SameAnswer comp comp' := by
  intro fs c history
  have hhere : ".." ∉ fs.here := by decide
  have hshallow : Shallow c fs (fs.resolve (.ofString "a")) := .of_length hhere (by decide)
  obtain ⟨comp, s, hrun, hlength⟩ := Ends.exists_of_run_map
    (p := c.compileFile fs (.ofString "a")) (s := {})
    (f := fun comp : Compilation => comp.diagnostics.length) (b := 3) (by decide +kernel)
  obtain ⟨comp', s', hrun', hsame⟩ :=
    (compileFile_transparent c fs hhere).shallow history (.ofString "a") comp s hshallow hrun
  exact ⟨hhere, hshallow, comp, comp', s, s', hrun, hlength, hrun', hsame⟩

/-- The depth limit is a difference: the chain behind `a` is too long, but once `b` is remembered no
one looks how long the rest of it is. -/
example :
    let fs : FileSystem :=
      ⟨["site"], [(["site"], .directory),
        (["site", "a"], .file "\x7b% include 'b' %\x7d".toUTF8.toList),
        (["site", "b"], .file "\x7b% include 'c' %\x7d".toUTF8.toList),
        (["site", "c"], .file "end".toUTF8.toList)]⟩
    let c : Compiler := ⟨.withDirs [], none, none, 2⟩
    let a := c.compileFile fs (.ofString "a")
    (a.run' {}).map (·.ok) = some false ∧
      (a.run' (State.after c fs [.file (.ofString "b")])).map (·.ok) = some true := by
  decide +kernel

end Compiler

end TemplateCompiler
