import Mathlib.Data.Set.Finite.Lattice
import Mathlib.Logic.Relation
import TemplateCompiler.Proofs.Accounting
import TemplateCompiler.Proofs.Files
import TemplateCompiler.Proofs.GeneratedIncludes
import TemplateCompiler.Proofs.RenamedUnits

/-!
# Compiled templates stand on the ground

The files of a file system form a graph, with an edge for each include tag that leads from one file
to another. A compilation that succeeds has an account in which all tags are reached and all that is
reached succeeded before it. So the part of the graph that can be reached from a compiled file is
finite and has no cycle, everything in it compiles, and what a program includes are the programs of
the files that its tags lead to. A cycle cannot be hidden in the memory, as no outcome that met the
stack is remembered.
-/

namespace TemplateCompiler

namespace Compiler

open Relation (ReflTransGen TransGen)

variable {c : Compiler} {fs : FileSystem}

variable (hhere : ".." ∉ fs.here)

/-! ## What stands in a file -/

/-- What the compiler reads in the file at a place, under no name. -/
def ReadsAt (c : Compiler) (fs : FileSystem) (place : Path) (delimiters : Delimiters)
    (parsed : Parsed) : Prop :=
  ∃ text, fs.textAt place = .ok text ∧ Reads c ⟨"", text, some place, none⟩ delimiters parsed

theorem Reads.inUnit {unit : SourceUnit} {delimiters : Delimiters} {parsed : Parsed}
    (h : Reads c unit delimiters parsed) (name : String) :
    Reads c { unit with name } delimiters (parsed.inUnit name) where
  configured := h.configured
  parses := by
    have hrenamed := parse_inUnit ⟨unit.name, c.whitespace.getD c.config.whitespace⟩ name
      delimiters unit.text
    rw [h.parses] at hrenamed
    exact hrenamed

theorem ReadsAt.unique {place : Path} {delimiters delimiters' : Delimiters}
    {parsed parsed' : Parsed} (h : ReadsAt c fs place delimiters parsed)
    (h' : ReadsAt c fs place delimiters' parsed') :
    delimiters = delimiters' ∧ parsed = parsed' := by
  obtain ⟨text, htext, hreads⟩ := h
  obtain ⟨text', htext', hreads'⟩ := h'
  obtain rfl := Except.ok.inj (htext.symm.trans htext')
  exact hreads.unique hreads'

include hhere in
/-- What is read in a file under some path is what stands there, with the path in its spans. -/
theorem FileUnit.readsAt {unit : SourceUnit} {place : Path}
    (hunit : FileUnit fs unit place) {delimiters : Delimiters} {parsed : Parsed}
    (h : Reads c unit delimiters parsed) : ReadsAt c fs place delimiters (parsed.inUnit "") := by
  obtain ⟨p, hp, -, htext⟩ := hunit.text
  refine ⟨unit.text, hp ▸ fs.textAt_of_readText hhere htext, ?_⟩
  have hreads := h.inUnit ""
  rwa [hunit.path, hunit.origin] at hreads

theorem isFile_of_findTemplate {name : String} {includer : Option Path} {found : Path}
    (h : c.config.findTemplate fs name includer = .ok (some found)) :
    fs.isFile found = .ok true := by
  unfold Config.findTemplate at h
  generalize c.config.candidates name includer = places at h
  induction places with
  | nil => cases h
  | cons p places ih =>
      rw [List.findM?] at h
      cases hfile : fs.isFile p with
      | error f =>
          rw [hfile] at h
          cases h
      | ok b =>
          rw [hfile] at h
          cases b with
          | true =>
              obtain rfl := Option.some.inj (Except.ok.inj h)
              exact hfile
          | false => exact ih h

/-- The file at `place` includes the file at `next`. -/
def Includes (c : Compiler) (fs : FileSystem) (place next : Path) : Prop :=
  ∃ delimiters parsed tag found, ReadsAt c fs place delimiters parsed ∧
    tag ∈ includeTags parsed.template ∧
    c.config.findTemplate fs tag.1 (some place) = .ok (some found) ∧ fs.resolve found = next

/-! ## Successful accounts -/

section

variable {m₀ m : Memory} {stack : List Path} {o : Outcome}

theorem Built.ok_iff (h : Built c fs m₀ m stack o) :
    o.compilation.diagnostics = [] ↔ ∃ program, o.compilation.program = some program := by
  cases h with
  | broken _ hne hprogram hdiagnostics =>
      rw [hdiagnostics, hprogram, leadBack_eq_nil, Parsed.diagnostics, List.map_eq_nil_iff]
      exact ⟨fun hnil => absurd hnil hne, by rintro ⟨_, ⟨⟩⟩⟩
  | @clean _ comp _ _ _ h _ =>
      dsimp only
      rw [h.ends.diagnostics, leadBack_eq_nil]
      cases hprogram : comp.program with
      | none => exact ⟨fun hnil => absurd hnil (h.ends.undecided hprogram), by rintro ⟨_, ⟨⟩⟩⟩
      | some program => exact ⟨fun _ => ⟨program, rfl⟩, fun _ => (h.ends.decided _ hprogram).1⟩

/-- A share without diagnostics is a program. -/
theorem Share.exists_program {span : Span} {share : Share}
    (hbuilt : ∀ from' o, share = .reached from' o → Built c fs m₀ m from' o)
    (h : share.diagnostics span = []) :
    ∃ from' o program, share = .reached from' o ∧ o.compilation.program = some program := by
  cases share with
  | refused problem => cases h
  | reached from' o =>
      rw [Share.diagnostics] at h
      cases hprogram : o.compilation.program with
      | some program => exact ⟨from', o, program, rfl, hprogram⟩
      | none =>
          rw [if_neg (by simp [hprogram]), List.map_eq_nil_iff] at h
          obtain ⟨program, hsome⟩ := (hbuilt from' o rfl).ok_iff.mp h
          cases hprogram.symm.trans hsome

/-- An outcome that depends on the stack is no success. -/
theorem Built.program_of_contextual (h : Built c fs m₀ m stack o)
    (hcontextual : o.contextual = true) : o.compilation.program = none := by
  induction h with
  | broken => cases hcontextual
  | @clean _ comp _ _ _ h hshares ih =>
      obtain ⟨entry, hentry, hflag⟩ := List.any_eq_true.mp hcontextual
      cases hprogram : comp.program with
      | none => rfl
      | some program =>
          have hdone := (h.ends.decided program hprogram).1
          rw [Included.diagnostics_foldl, List.append_eq_nil_iff, List.flatMap_eq_nil_iff] at hdone
          obtain ⟨from', o, program', hshare, hsome⟩ :=
            Share.exists_program (hshares entry hentry) (hdone.2 entry hentry)
          rw [hshare] at hflag
          cases hsome.symm.trans (ih entry hentry from' o hshare hflag)

/-- The file at a place compiled, and so did all files that it includes. -/
inductive Succeeds (c : Compiler) (fs : FileSystem) (m : Memory) :
    Path → Prop
  | intro {place comp delimiters parsed} (hlookup : m.lookup (.file place) = some comp)
      (hok : comp.diagnostics = []) (hreads : ReadsAt c fs place delimiters parsed)
      (hnil : parsed.complaints = [])
      (hfound : ∀ tag ∈ includeTags parsed.template, ∃ found,
        c.config.findTemplate fs tag.1 (some place) = .ok (some found))
      (hnext : ∀ tag ∈ includeTags parsed.template, ∀ found,
        c.config.findTemplate fs tag.1 (some place) = .ok (some found) →
          Succeeds c fs m (fs.resolve found)) : Succeeds c fs m place

/-- All tags of a unit that has a program are reached, and what they reach is remembered. -/
theorem Fits.remembered {unit : SourceUnit} {tag : String × Span} {share : Share}
    (hfits : Fits c fs m₀ m unit stack tag share)
    (hbuilt : ∀ from' o, share = .reached from' o → Built c fs m₀ m from' o) {span : Span}
    (h : share.diagnostics span = []) :
    ∃ found from' o program, c.config.findTemplate fs tag.1 unit.path = .ok (some found) ∧
      share = .reached from' o ∧ o.compilation.program = some program ∧
      FileUnit fs o.compilation.unit (fs.resolve found) ∧
      m.lookup (.file (fs.resolve found)) = some o.compilation := by
  obtain ⟨from', o, program, rfl, hprogram⟩ := Share.exists_program hbuilt h
  cases hfits with
  | @reached path _ found _ _ hfind _ _ harrives =>
      have hfalse : o.contextual = false := by
        rw [Bool.eq_false_iff]
        intro htrue
        have hnone := (hbuilt from' o rfl).program_of_contextual htrue
        cases hprogram.symm.trans hnone
      exact ⟨found, from', o, program, hfind, rfl, hprogram, harrives.unit, harrives.kept hfalse⟩

include hhere in
theorem Built.succeeds (h : Built c fs m₀ m stack o)
    (hok : o.compilation.diagnostics = []) {place : Path}
    (hunit : FileUnit fs o.compilation.unit place)
    (hlookup : m.lookup (.file place) = some o.compilation) : Succeeds c fs m place := by
  induction h generalizing place with
  | broken _ hne hprogram hdiagnostics =>
      dsimp only at hok
      rw [hdiagnostics, leadBack_eq_nil, Parsed.diagnostics, List.map_eq_nil_iff] at hok
      exact absurd hok hne
  | @clean _ comp _ parsed entries h hshares ih =>
      have hdone : (entries.foldl Included.add
          (Included.ofUnit comp.unit parsed.template)).diagnostics = [] := by
        rw [← @leadBack_eq_nil comp.unit, ← h.ends.diagnostics]
        exact hok
      rw [Included.diagnostics_foldl, List.append_eq_nil_iff, List.flatMap_eq_nil_iff] at hdone
      have hreached : ∀ tag ∈ includeTags (parsed.inUnit "").template, ∃ found,
          c.config.findTemplate fs tag.1 (some place) = .ok (some found) ∧
            Succeeds c fs m (fs.resolve found) := by
        intro tag htag
        rw [Parsed.inUnit, includeTags_inUnit, ← h.tags, List.map_map] at htag
        obtain ⟨entry, hentry, rfl⟩ := List.mem_map.mp htag
        obtain ⟨found, from', o, program, hfind, hshare, hprogram, hunit', hlookup'⟩ :=
          (h.fits entry hentry).remembered (hshares entry hentry) (hdone.2 entry hentry)
        rw [hunit.path] at hfind
        have hok' : o.compilation.diagnostics = [] :=
          (hshares entry hentry from' o hshare).ok_iff.mpr ⟨program, hprogram⟩
        exact ⟨found, hfind, ih entry hentry from' o hshare hok' hunit' hlookup'⟩
      refine .intro hlookup hok (hunit.readsAt hhere h.reads) ?_ (fun tag htag => ?_) ?_
      · rw [Parsed.inUnit, h.flawless, List.map_nil]
      · obtain ⟨found, hfind, -⟩ := hreached tag htag
        exact ⟨found, hfind⟩
      · intro tag htag found hfind
        obtain ⟨found', hfind', hsucceeds⟩ := hreached tag htag
        obtain rfl := Option.some.inj (Except.ok.inj (hfind'.symm.trans hfind))
        exact hsucceeds

/-! ## The graph below a success -/

theorem Succeeds.of_includes {place next : Path} (h : Succeeds c fs m place)
    (hnext : Includes c fs place next) : Succeeds c fs m next := by
  obtain ⟨delimiters, parsed, tag, found, hreads, htag, hfind, rfl⟩ := hnext
  cases h with
  | intro _ _ hreads' _ _ hall =>
      obtain ⟨-, rfl⟩ := hreads.unique hreads'
      exact hall tag htag found hfind

theorem Succeeds.of_reaches {place next : Path} (h : Succeeds c fs m place)
    (hreach : ReflTransGen (Includes c fs) place next) : Succeeds c fs m next := by
  induction hreach with
  | refl => exact h
  | tail _ hnext ih => exact ih.of_includes hnext

/-- A cycle could be followed down forever. -/
theorem Succeeds.acyclic {place : Path} (h : Succeeds c fs m place) :
    ¬ TransGen (Includes c fs) place place := by
  induction h with
  | intro _ _ hreads _ _ _ ih =>
      intro hcycle
      obtain ⟨next, hnext, hback⟩ := TransGen.head'_iff.mp hcycle
      have hstep := hnext
      obtain ⟨_, _, tag, found, hreads', htag, hfind, rfl⟩ := hnext
      obtain ⟨-, rfl⟩ := hreads.unique hreads'
      exact ih tag htag found hfind (TransGen.tail' hback hstep)

theorem Succeeds.finite {place : Path} (h : Succeeds c fs m place) :
    {next | ReflTransGen (Includes c fs) place next}.Finite := by
  induction h with
  | @intro place _ _ parsed _ _ hreads _ hfound _ ih =>
      have hbelow : ∀ tag ∈ includeTags parsed.template,
          {next | ∃ found, c.config.findTemplate fs tag.1 (some place) = .ok (some found) ∧
            ReflTransGen (Includes c fs) (fs.resolve found) next}.Finite := by
        intro tag htag
        obtain ⟨found, hfind⟩ := hfound tag htag
        refine (ih tag htag found hfind).subset ?_
        rintro next ⟨found', hfind', hreach⟩
        obtain rfl := Option.some.inj (Except.ok.inj (hfind.symm.trans hfind'))
        exact hreach
      have htags : {tag | tag ∈ includeTags parsed.template}.Finite := List.finite_toSet _
      refine ((Set.finite_singleton place).union (htags.biUnion hbelow)).subset ?_
      intro next hreach
      rcases ReflTransGen.cases_head hreach with rfl | ⟨first, hfirst, hreach⟩
      · exact .inl rfl
      · obtain ⟨_, _, tag, found, hreads', htag, hfind, rfl⟩ := hfirst
        obtain ⟨-, rfl⟩ := hreads.unique hreads'
        exact .inr (Set.mem_biUnion htag ⟨found, hfind, hreach⟩)

/-- What a program includes is the remembered program of the file that the tag leads to. -/
theorem Built.included (h : Built c fs m₀ m stack o) {program : Program}
    (hprogram : o.compilation.program = some program) {path : String} {included : Program}
    {span : Span} (hop : program.HasOperation (.inclusion path included span)) :
    ∃ found comp, c.config.findTemplate fs path o.compilation.unit.path = .ok (some found) ∧
      m.lookup (.file (fs.resolve found)) = some comp ∧ comp.program = some included := by
  cases h with
  | broken _ _ hnone => cases hnone.symm.trans hprogram
  | @clean _ comp _ parsed entries h hshares =>
      obtain ⟨hdone, hgenerated⟩ := h.ends.decided program hprogram
      obtain ⟨htag, hlookup⟩ := Generator.program_includesFrom hgenerated hop
      rw [Included.diagnostics_foldl, List.append_eq_nil_iff, List.flatMap_eq_nil_iff] at hdone
      rcases Included.mem_programs_foldl entries _ (mem_of_lookup hlookup) with
        hstart | ⟨entry, hentry, hspan, hsome⟩
      · cases hstart
      · have hentrytag : entry.1 ∈ includeTags parsed.template :=
          h.tags ▸ List.mem_map_of_mem hentry
        have htageq : entry.1 = (path, span) :=
          includeTags_unique h.reads.parses hentrytag htag hspan
        obtain ⟨found, from', o, program', hfind, hshare, hprogram', -, hremembered⟩ :=
          (h.fits entry hentry).remembered (hshares entry hentry) (hdone.2 entry hentry)
        rw [htageq] at hfind
        rw [hshare] at hsome
        exact ⟨found, o.compilation, hfind, hremembered, hsome⟩

end

/-! ## Requests -/

/-- What lies behind a file that compiled, for a compiler in the state `s`. -/
structure Grounded (c : Compiler) (fs : FileSystem) (s : State) (p : Path) (program : Program) :
    Prop where
  finite : {place | ReflTransGen (Includes c fs) (fs.resolve p) place}.Finite
  acyclic : ∀ place, ReflTransGen (Includes c fs) (fs.resolve p) place →
    ¬ TransGen (Includes c fs) place place
  /-- Every file behind it can be read, and everything that it includes is found and can be read. -/
  read : ∀ place, ReflTransGen (Includes c fs) (fs.resolve p) place →
    ∃ delimiters parsed, ReadsAt c fs place delimiters parsed ∧ parsed.complaints = [] ∧
      ∀ tag ∈ includeTags parsed.template, ∃ found text,
        c.config.findTemplate fs tag.1 (some place) = .ok (some found) ∧
          fs.readText found = .ok text
  compiles : ∀ q, ReflTransGen (Includes c fs) (fs.resolve p) (fs.resolve q) →
    fs.locate q = .ok (fs.resolve q) → ∃ comp s', c.compileFile fs q s = .ok comp s' ∧ comp.ok
  /-- The program that an operation includes is what its file compiles to. -/
  included : ∀ path included span, program.HasOperation (.inclusion path included span) →
    ∃ found comp s', c.config.findTemplate fs path (some (fs.resolve p)) = .ok (some found) ∧
      c.compileFile fs found s = .ok comp s' ∧ comp.program = some included

/-- What holds for all files and all that was asked before. -/
structure GroundedRequests (c : Compiler) (fs : FileSystem) : Prop where
  grounded : ∀ (history : List Request) (p : Path) (comp : Compilation) (s' : State),
    c.compileFile fs p (State.after c fs history) = .ok comp s' → comp.ok →
      ∃ program, comp.program = some program ∧ Grounded c fs s' p program
  /-- A file from which a cycle can be reached fails, and no success of it is remembered. -/
  refused : ∀ place cycle, ReflTransGen (Includes c fs) place cycle →
    TransGen (Includes c fs) cycle cycle → ∀ history : List Request,
      (∀ comp, (State.after c fs history).memo.lookup (.file place) = some comp → ¬ comp.ok) ∧
      ∀ p comp s', fs.resolve p = place →
        c.compileFile fs p (State.after c fs history) = .ok comp s' → ¬ comp.ok

include hhere in
theorem Succeeds.grounded {s : State} {p : Path}
    (h : Succeeds c fs s.memo (fs.resolve p)) {program : Program} {o : Outcome}
    {from' : List Path} (hbuilt : Built c fs [] s.memo from' o)
    (hunit : o.compilation.unit.path = some (fs.resolve p))
    (hprogram : o.compilation.program = some program) : Grounded c fs s p program where
  finite := h.finite
  acyclic place hreach := (h.of_reaches hreach).acyclic
  read place hreach := by
    have hplace := h.of_reaches hreach
    cases hplace with
    | intro _ _ hreads hnil hfound hnext =>
        refine ⟨_, _, hreads, hnil, fun tag htag => ?_⟩
        obtain ⟨found, hfind⟩ := hfound tag htag
        cases hnext tag htag found hfind with
        | intro _ _ hbelow _ _ _ =>
            obtain ⟨text, htext, -⟩ := hbelow
            rw [← fs.readText_of_isFile hhere (isFile_of_findTemplate hfind)] at htext
            exact ⟨found, text, hfind, htext⟩
  compiles q hreach hlocate := by
    cases h.of_reaches hreach with
    | @intro _ comp _ _ hlookup hok _ _ _ _ =>
        obtain ⟨s', hrun⟩ := compileFile_of_lookup hlocate hlookup
        exact ⟨comp, s', hrun, by simp [Compilation.ok, hok]⟩
  included path included span hop := by
    obtain ⟨found, comp, hfind, hlookup, hsome⟩ := hbuilt.included hprogram hop
    rw [hunit] at hfind
    have hlocate := fs.locate_of_isFile (isFile_of_findTemplate hfind)
    obtain ⟨s', hrun⟩ := compileFile_of_lookup hlocate hlookup
    exact ⟨found, comp, s', hfind, hrun, hsome⟩

/-- A compilation that succeeds stands on a finite graph without cycles, all of which compiles. -/
theorem compileFile_grounded (c : Compiler) (fs : FileSystem) (hhere : ".." ∉ fs.here) :
    GroundedRequests c fs := by
  have hsucceeds : ∀ (history : List Request) (p : Path) (comp : Compilation) (s' : State),
      c.compileFile fs p (State.after c fs history) = .ok comp s' → comp.ok →
        ∃ o from', o.compilation = comp ∧ Built c fs [] s'.memo from' o ∧
          FileUnit fs comp.unit (fs.resolve p) ∧ Succeeds c fs s'.memo (fs.resolve p) := by
    intro history p comp s' hrun hok
    have hends := compileFile_ends p (State.accounted_after c fs history) (Memory.Kept.nil)
    obtain ⟨-, o, from', rfl, harrives, hbuilt⟩ := hends.of_ok hrun
    have hnil : o.compilation.diagnostics = [] := List.isEmpty_iff.mp hok
    have hfalse : o.contextual = false := by
      rw [Bool.eq_false_iff]
      intro htrue
      obtain ⟨program, hsome⟩ := hbuilt.ok_iff.mp hnil
      cases hsome.symm.trans (hbuilt.program_of_contextual htrue)
    exact ⟨o, from', rfl, hbuilt, harrives.unit,
      hbuilt.succeeds hhere hnil harrives.unit (harrives.kept hfalse)⟩
  refine ⟨?_, ?_⟩
  · intro history p comp s' hrun hok
    obtain ⟨o, from', rfl, hbuilt, hunit, hsuccess⟩ := hsucceeds history p comp s' hrun hok
    obtain ⟨program, hprogram⟩ := hbuilt.ok_iff.mp (List.isEmpty_iff.mp hok)
    exact ⟨program, hprogram, hsuccess.grounded hhere hbuilt hunit.path hprogram⟩
  · intro place cycle hreach hcycle history
    constructor
    · intro comp hlookup hok
      obtain ⟨hunit, stack, hbuilt⟩ := State.accounted_after c fs history _ comp hlookup
      have hsuccess := hbuilt.succeeds hhere (List.isEmpty_iff.mp hok) hunit hlookup
      exact (hsuccess.of_reaches hreach).acyclic hcycle
    · rintro p comp s' rfl hrun hok
      obtain ⟨-, -, -, -, -, hsuccess⟩ := hsucceeds history p comp s' hrun hok
      exact (hsuccess.of_reaches hreach).acyclic hcycle

/-- A page that includes a part directly and through a frame, where the part was compiled before. -/
theorem grounded_of_shared_part :
    let page := "\x7b% include 'frame' %\x7d\x7b% include 'part' %\x7d"
    let fs : FileSystem :=
      ⟨["site"], [(["site"], .directory), (["site", "page"], .file page.toUTF8.toList),
        (["site", "frame"], .file "\x7b% include 'part' %\x7d".toUTF8.toList),
        (["site", "part"], .file "part".toUTF8.toList)]⟩
    let c : Compiler := ⟨.withDirs [], none, none, 16⟩
    ".." ∉ fs.here ∧ ∃ comp s' program,
      c.compileFile fs (.ofString "page") (State.after c fs [.file (.ofString "part")]) =
        .ok comp s' ∧ comp.program = some program ∧
          Grounded c fs s' (.ofString "page") program := by
  intro page fs c
  have hhere : ".." ∉ fs.here := by decide
  obtain ⟨comp, s', hrun, hok⟩ := Ends.exists_of_run_map
    (p := c.compileFile fs (.ofString "page")) (s := State.after c fs [.file (.ofString "part")])
    (f := Compilation.ok) (b := true) (by decide +kernel)
  obtain ⟨program, hprogram, hgrounded⟩ :=
    (compileFile_grounded c fs hhere).grounded [.file (.ofString "part")] (.ofString "page") comp s'
      hrun hok
  exact ⟨hhere, comp, s', program, hrun, hprogram, hgrounded⟩

end Compiler

end TemplateCompiler
