import TemplateCompiler.Proofs.Agreement

/-!
# What stops a compiler

A source that the parser gives up on ends a request, whichever file includes it. The compiler
follows the include tags of a file in order, up to the first whose template cannot be looked for,
and leaves out the files on its stack. So it stops at a file if and only if a source that stops it
can be reached from there past the stack, unless a remembered file or the depth limit keeps it from
going on.

That a file is remembered which can reach such a source is possible in general: its compilation may
have ended where a file of an earlier stack was in the way. But a new compiler that has come back
from a file remembers no file from which it could be reached past its stack.
-/

namespace TemplateCompiler

/-- The faults that end a request wherever they occur. -/
def CompileFault.Stopping : CompileFault → Prop
  | .config _ | .stopped _ _ _ => True
  | .unreadable _ _ | .generation _ | .outOfFuel => False

namespace Compiler

variable {c : Compiler} {fs : FileSystem} {m m' : Memory} {avoid stack : List Path}
  {place next : Path} {unit : SourceUnit}

variable (hhere : ".." ∉ fs.here)

/-! ## Doomed files -/

/-- There is a text at the place, and the compiler does not come through it. -/
def Stops (c : Compiler) (fs : FileSystem) (place : Path) : Prop :=
  (∃ text, fs.textAt place = .ok text) ∧ ∀ delimiters parsed, ¬ ReadsAt c fs place delimiters parsed

/-- The tags that are followed: those in front of the first whose template cannot be looked for. -/
def followed (c : Compiler) (fs : FileSystem) (includer : Option Path)
    (tags : List (String × Span)) : List (String × Span) :=
  tags.takeWhile fun tag => (c.config.findTemplate fs tag.1 includer).toOption.isSome

/-- The compiler comes from the file at `place` to the file at `next`. -/
def Visits (c : Compiler) (fs : FileSystem) (place next : Path) : Prop :=
  ∃ delimiters parsed tag found, ReadsAt c fs place delimiters parsed ∧ parsed.complaints = [] ∧
    tag ∈ followed c fs (some place) (includeTags parsed.template) ∧
    c.config.findTemplate fs tag.1 (some place) = .ok (some found) ∧ fs.resolve found = next

/-- From the place, a file that stops the compiler can be reached past the files to avoid. -/
inductive Doomed (c : Compiler) (fs : FileSystem) (avoid : List Path) : Path → Prop
  | here {place : Path} (hnew : place ∉ avoid) (h : Stops c fs place) : Doomed c fs avoid place
  | behind {place next : Path} (hnew : place ∉ avoid) (hvisits : Visits c fs place next)
      (h : Doomed c fs avoid next) : Doomed c fs avoid place

namespace Doomed

theorem notMem (h : Doomed c fs avoid place) : place ∉ avoid := by
  cases h with
  | here hnew _ => exact hnew
  | behind hnew _ _ => exact hnew

/-- There is more than one way past fewer files. -/
theorem fewer {more : List Path} (h : Doomed c fs (avoid ++ more) place) :
    Doomed c fs avoid place := by
  induction h with
  | here hnew h => exact .here (fun hmem => hnew (List.mem_append_left _ hmem)) h
  | behind hnew hvisits _ ih =>
      exact .behind (fun hmem => hnew (List.mem_append_left _ hmem)) hvisits ih

/-- A way past some files leads past one more, or else through it. From there it need not come
back. -/
theorem past_or_through (h : Doomed c fs avoid next) (place : Path) :
    Doomed c fs (avoid ++ [place]) next ∨ Doomed c fs avoid place ∧ (Stops c fs place ∨
      ∃ after, Visits c fs place after ∧ Doomed c fs (avoid ++ [place]) after) := by
  have hpast : ∀ {p : Path}, p ∉ avoid → p ≠ place → p ∉ avoid ++ [place] := by
    intro p hnew hne hmem
    rcases List.mem_append.mp hmem with hold | hlast
    · exact hnew hold
    · exact hne (List.mem_singleton.mp hlast)
  induction h with
  | @here p hnew h =>
      by_cases heq : p = place
      · exact .inr (heq ▸ ⟨.here hnew h, .inl h⟩)
      · exact .inl (.here (hpast hnew heq) h)
  | @behind p after hnew hvisits hafter ih =>
      rcases ih with hleft | hthrough
      · by_cases heq : p = place
        · exact .inr (heq ▸ ⟨.behind hnew hvisits hafter, .inr ⟨after, hvisits, heq ▸ hleft⟩⟩)
        · exact .inl (.behind (hpast hnew heq) hvisits hleft)
      · exact .inr hthrough

theorem first_step (h : Doomed c fs avoid place) :
    Stops c fs place ∨ ∃ next, Visits c fs place next ∧ Doomed c fs (avoid ++ [place]) next := by
  rcases h.past_or_through place with hpast | hthrough
  · exact absurd (List.mem_append_right _ (List.mem_singleton_self _)) hpast.notMem
  · exact hthrough.2

end Doomed

/-- No remembered file is doomed. -/
def Clear (c : Compiler) (fs : FileSystem) (avoid : List Path) (m : Memory) : Prop :=
  ∀ place comp, m.lookup (.file place) = some comp → ¬ Doomed c fs avoid place

theorem Clear.more (h : Clear c fs avoid m) (more : List Path) : Clear c fs (avoid ++ more) m :=
  fun place comp hlookup hdoomed => h place comp hlookup hdoomed.fewer

theorem Clear.less (h : Clear c fs (avoid ++ [place]) m) (hplace : ¬ Doomed c fs avoid place) :
    Clear c fs avoid m := by
  intro next comp hlookup hdoomed
  rcases hdoomed.past_or_through place with hpast | hthrough
  · exact h next comp hlookup hpast
  · exact hplace hthrough.1

/-- If nothing that was remembered before is doomed, neither is the place, nor what is remembered
then. -/
def Passes (c : Compiler) (fs : FileSystem) (avoid : List Path) (place : Path) (m m' : Memory) :
    Prop :=
  Clear c fs avoid m → ¬ Doomed c fs avoid place ∧ Clear c fs avoid m'

/-! ## One file -/

section

variable {delimiters : Delimiters} {parsed : Parsed}

theorem followed_inUnit (includer : Option Path) (t : Template) (name : String) :
    followed c fs includer (includeTags (t.inUnit name)) =
      (followed c fs includer (includeTags t)).map fun tag => (tag.1, tag.2.inUnit name) := by
  rw [includeTags_inUnit, followed, followed, List.takeWhile_map]
  rfl

include hhere

/-- What is behind a tag that is followed is behind the file. -/
theorem Doomed.of_tag (hunit : FileUnit fs unit place)
    (hreads : Reads c unit delimiters parsed) (hnil : parsed.complaints = []) (hnew : place ∉ avoid)
    {tag : String × Span} (htag : tag ∈ followed c fs unit.path (includeTags parsed.template))
    {found : Path} (hfind : c.config.findTemplate fs tag.1 unit.path = .ok (some found))
    (h : Doomed c fs (avoid ++ [place]) (fs.resolve found)) : Doomed c fs avoid place := by
  rw [hunit.path] at htag hfind
  refine .behind hnew ⟨delimiters, parsed.inUnit "", (tag.1, tag.2.inUnit ""), found,
    hunit.readsAt hhere hreads, ?_, ?_, hfind, rfl⟩ h.fewer
  · rw [Parsed.inUnit, hnil, List.map_nil]
  · rw [Parsed.inUnit, followed_inUnit]
    exact List.mem_map_of_mem htag

/-- A file is not doomed if what is behind the tags that are followed is not. -/
theorem not_doomed_of_tags (hunit : FileUnit fs unit place)
    (hreads : Reads c unit delimiters parsed)
    (h : parsed.complaints = [] → ∀ tag ∈ followed c fs unit.path (includeTags parsed.template),
      ∀ found, c.config.findTemplate fs tag.1 unit.path = .ok (some found) →
        ¬ Doomed c fs (avoid ++ [place]) (fs.resolve found)) : ¬ Doomed c fs avoid place := by
  have hat := hunit.readsAt hhere hreads
  intro hdoomed
  rcases hdoomed.first_step with hstops | ⟨next, hvisits, hnext⟩
  · exact hstops.2 _ _ hat
  · obtain ⟨_, _, tag, found, hreads', hnil, htag, hfind, rfl⟩ := hvisits
    obtain ⟨-, rfl⟩ := hreads'.unique hat
    rw [Parsed.inUnit, followed_inUnit] at htag
    obtain ⟨inner, hinner, rfl⟩ := List.mem_map.mp htag
    rw [← hunit.path] at hinner hfind
    exact h (List.map_eq_nil_iff.mp hnil) inner hinner found hfind hnext

/-- A unit that cannot be parsed is that of a file which stops the compiler. -/
theorem Stops.of_unit (hunit : FileUnit fs unit place)
    (h : ∀ delimiters parsed, ¬ Reads c unit delimiters parsed) : Stops c fs place := by
  obtain ⟨p, hp, -, htext⟩ := hunit.text
  have hat := hp ▸ fs.textAt_of_readText hhere htext
  refine ⟨⟨unit.text, hat⟩, ?_⟩
  rintro delimiters parsed ⟨text, htext', hreads⟩
  obtain rfl := Except.ok.inj (hat.symm.trans htext')
  have hnamed := hreads.inUnit unit.name
  refine h delimiters (parsed.inUnit unit.name) ?_
  rw [← hunit.path] at hnamed
  exact ⟨hnamed.configured, hnamed.parses⟩

end

/-- A file that is doomed has a text. -/
theorem not_doomed_of_textAt {fault : ReadFault} (h : fs.textAt place = .error fault) :
    ¬ Doomed c fs avoid place := by
  intro hdoomed
  cases hdoomed with
  | here _ hstops =>
      obtain ⟨text, htext⟩ := hstops.1
      cases h.symm.trans htext
  | behind _ hvisits _ =>
      obtain ⟨_, _, _, _, ⟨text, htext, -⟩, -⟩ := hvisits
      cases h.symm.trans htext

/-! ## Runs -/

/-- A run that comes to a place with one memory fails and leaves another. -/
structure Fails (c : Compiler) (fs : FileSystem) (stack : List Path) (place : Path) (m : Memory)
    (fault : CompileFault) (m' : Memory) : Prop where
  doomed : fault.Stopping → Doomed c fs stack place
  passed : ∀ file reason, fault = .unreadable file reason → Passes c fs stack place m m'

/-- Compiling a file from a stack stops only where the file is doomed, and otherwise passes. -/
def Comes (c : Compiler) (fs : FileSystem) (stack : List Path) (compile : Path → CompileM Outcome) :
    Prop :=
  ∀ (path : Path) (s : State), fs.readText path = fs.textAt (fs.resolve path) →
    fs.resolve path ∉ stack → Roomy c fs stack (fs.resolve path) →
      Ends (compile path) s (fun _ s' => Passes c fs stack (fs.resolve path) s.memo s'.memo)
        fun fault s' => Fails c fs stack (fs.resolve path) s.memo fault s'.memo

/-- After these tags nothing is remembered that is doomed, if nothing was before, and nothing is
that they lead to. -/
def Cleared (c : Compiler) (fs : FileSystem) (stack : List Path) (includer : Option Path)
    (tags : List (String × Span)) (m m' : Memory) : Prop :=
  Clear c fs stack m → Clear c fs stack m' ∧ ∀ tag ∈ followed c fs includer tags, ∀ found,
    c.config.findTemplate fs tag.1 includer = .ok (some found) →
      ¬ Doomed c fs stack (fs.resolve found)

/-- One of these tags leads to a doomed file. -/
def Leads (c : Compiler) (fs : FileSystem) (stack : List Path) (includer : Option Path)
    (tags : List (String × Span)) : Prop :=
  ∃ tag ∈ followed c fs includer tags, ∃ found,
    c.config.findTemplate fs tag.1 includer = .ok (some found) ∧
      Doomed c fs stack (fs.resolve found)

section

variable {compile : Path → CompileM Outcome} {tag : String × Span} {tags : List (String × Span)}
  {includer : Option Path} {found? : Option Path}

theorem followed_cons (h : c.config.findTemplate fs tag.1 includer = .ok found?) :
    followed c fs includer (tag :: tags) = tag :: followed c fs includer tags := by
  rw [followed, List.takeWhile_cons_of_pos (by rw [h]; rfl)]
  rfl

theorem Cleared.cons (h : c.config.findTemplate fs tag.1 includer = .ok found?)
    (hfirst : Clear c fs stack m → Clear c fs stack m' ∧ ∀ found, found? = some found →
      ¬ Doomed c fs stack (fs.resolve found)) {m'' : Memory}
    (hrest : Cleared c fs stack includer tags m' m'') :
    Cleared c fs stack includer (tag :: tags) m m'' := by
  intro hclear
  obtain ⟨hclear', hfound⟩ := hfirst hclear
  obtain ⟨hclear'', hall⟩ := hrest hclear'
  refine ⟨hclear'', ?_⟩
  rw [followed_cons h]
  refine List.forall_mem_cons.mpr ⟨fun found hfind => ?_, hall⟩
  exact hfound found (Except.ok.inj (h.symm.trans hfind))

theorem readable_comes (hcompile : Comes c fs stack compile) {path : Path} (s : State)
    (htext : fs.readText path = fs.textAt (fs.resolve path)) (hstack : fs.resolve path ∉ stack)
    (hroomy : Roomy c fs stack (fs.resolve path)) :
    Ends (readable (compile path)) s
      (fun _ s' => Passes c fs stack (fs.resolve path) s.memo s'.memo)
      fun fault _ => (fault.Stopping → Doomed c fs stack (fs.resolve path)) ∧
        ∀ file reason, fault ≠ .unreadable file reason := by
  refine Ends.tryCatch ((hcompile path s htext hstack hroomy).map fun _ _ h => h) ?_
  intro fault s' hfails
  cases fault with
  | unreadable file reason => exact Ends.pure (hfails.passed file reason rfl)
  | _ => exact Ends.throw ⟨hfails.doomed, nofun⟩

include hhere

/-- One include tag. -/
theorem resolveInclude_comes (hcompile : Comes c fs stack compile)
    (unit : SourceUnit) (done : Included) (tag : String × Span) (s : State)
    (hroomy : ∀ found, c.config.findTemplate fs tag.1 unit.path = .ok (some found) →
      fs.resolve found ∉ stack → (stack.length : Int) < c.maxIncludeDepth ∧
        Roomy c fs stack (fs.resolve found)) :
    Ends (resolveInclude c fs compile unit stack done tag) s
      (fun _ s' => ∃ found?, c.config.findTemplate fs tag.1 unit.path = .ok found? ∧
        (Clear c fs stack s.memo → Clear c fs stack s'.memo ∧ ∀ found, found? = some found →
          ¬ Doomed c fs stack (fs.resolve found)))
      fun fault s' => (fault.Stopping → ∃ found,
          c.config.findTemplate fs tag.1 unit.path = .ok (some found) ∧
            Doomed c fs stack (fs.resolve found)) ∧
        ∀ file reason, fault = .unreadable file reason → s' = s ∧
          c.config.findTemplate fs tag.1 unit.path = .error (file, reason) := by
  obtain ⟨path, span⟩ := tag
  rw [resolveInclude]
  refine Ends.bind ((liftRead_ends (c.config.findTemplate fs path unit.path) s).imp
    (fun _ _ h => h) ?_) ?_
  · rintro fault s' ⟨rfl, file, reason, hfind, rfl⟩
    refine ⟨False.elim, ?_⟩
    rintro file' reason' ⟨⟩
    exact ⟨rfl, hfind⟩
  · rintro found s' ⟨rfl, hfind⟩
    cases found with
    | none => exact Ends.pure ⟨none, hfind, fun hclear => ⟨hclear, by rintro _ ⟨⟩⟩⟩
    | some found =>
        dsimp only
        by_cases hstack : fs.resolve found ∈ stack
        · rw [if_pos (List.contains_iff_mem.mpr hstack)]
          refine Ends.pure ⟨some found, hfind, fun hclear => ⟨hclear, ?_⟩⟩
          rintro _ ⟨⟩ hdoomed
          exact hdoomed.notMem hstack
        · obtain ⟨hdepth, hroom⟩ := hroomy found hfind hstack
          have hshort : ¬ c.maxIncludeDepth ≤ stack.length := Int.not_le.mpr hdepth
          rw [if_neg fun h => hstack (List.contains_iff_mem.mp h), if_neg hshort]
          refine Ends.bind (tell_ends _ s') ?_
          intro _ s₁ hmemo
          rw [← hmemo]
          have htext := fs.readText_of_isFile hhere (isFile_of_findTemplate hfind)
          have hreadable := readable_comes hcompile s₁ htext hstack hroom
          refine Ends.bind (hreadable.imp (fun _ _ h => h) ?_) ?_
          · intro fault s'' hfault
            exact ⟨fun hstopping => ⟨found, hfind, hfault.1 hstopping⟩,
              fun file reason h => absurd h (hfault.2 file reason)⟩
          · intro result s'' hpasses
            have hdone : Clear c fs stack s₁.memo → Clear c fs stack s''.memo ∧
                ∀ found', some found = some found' → ¬ Doomed c fs stack (fs.resolve found') := by
              intro hclear
              obtain ⟨hplace, hclear'⟩ := hpasses hclear
              refine ⟨hclear', ?_⟩
              rintro _ ⟨⟩
              exact hplace
            cases result with
            | error unreadable => exact Ends.pure ⟨some found, hfind, hdone⟩
            | ok outcome =>
                dsimp only
                cases outcome.compilation.program with
                | some program => exact Ends.pure ⟨some found, hfind, hdone⟩
                | none => exact Ends.pure ⟨some found, hfind, hdone⟩

/-- All include tags, in order. -/
theorem includes_comes (hcompile : Comes c fs stack compile)
    (unit : SourceUnit) (tags : List (String × Span)) (done : Included) (s : State)
    (hroomy : ∀ tag ∈ tags, ∀ found,
      c.config.findTemplate fs tag.1 unit.path = .ok (some found) →
      fs.resolve found ∉ stack → (stack.length : Int) < c.maxIncludeDepth ∧
        Roomy c fs stack (fs.resolve found)) :
    Ends (tags.foldlM (resolveInclude c fs compile unit stack) done) s
      (fun _ s' => Cleared c fs stack unit.path tags s.memo s'.memo)
      fun fault s' => (fault.Stopping → Leads c fs stack unit.path tags) ∧
        ∀ file reason, fault = .unreadable file reason →
          Cleared c fs stack unit.path tags s.memo s'.memo := by
  induction tags generalizing done s with
  | nil => exact Ends.pure fun hclear => ⟨hclear, nofun⟩
  | cons tag tags ih =>
      obtain ⟨hhead, htail⟩ := List.forall_mem_cons.mp hroomy
      rw [List.foldlM_cons]
      refine Ends.bind ((resolveInclude_comes hhere hcompile unit done tag s hhead).imp
        (fun _ _ h => h) ?_) ?_
      · intro fault s' hfault
        constructor
        · intro hstopping
          obtain ⟨found, hfind, hdoomed⟩ := hfault.1 hstopping
          refine ⟨tag, ?_, found, hfind, hdoomed⟩
          rw [followed_cons hfind]
          exact List.mem_cons_self
        · intro file reason hunreadable
          obtain ⟨rfl, hfind⟩ := hfault.2 file reason hunreadable
          refine fun hclear => ⟨hclear, ?_⟩
          rw [followed, List.takeWhile_cons_of_neg (by rw [hfind]; exact Bool.false_ne_true)]
          exact nofun
      · rintro done' s' ⟨found?, hfind, hfirst⟩
        refine (ih done' s' htail).imp ?_ ?_
        · exact fun _ s'' hrest => hrest.cons hfind hfirst
        · intro fault s'' hfault
          refine ⟨fun hstopping => ?_, fun file reason h => ?_⟩
          · obtain ⟨tag', htag', hleads⟩ := hfault.1 hstopping
            refine ⟨tag', ?_, hleads⟩
            rw [followed_cons hfind]
            exact List.mem_cons_of_mem _ htag'
          · exact (hfault.2 file reason h).cons hfind hfirst

end

/-! ## Units and files -/

section

variable {compile : List Path → Path → CompileM Outcome} {delimiters : Delimiters} {parsed : Parsed}

theorem Passes.add {key : MemoKey} {comp : Compilation} (h : Passes c fs stack place m m')
    (hkey : key = .file place) : Passes c fs stack place m (m' ++ [(key, comp)]) := by
  intro hclear
  obtain ⟨hplace, hclear'⟩ := h hclear
  refine ⟨hplace, fun other comp' hlookup => ?_⟩
  cases hold : m'.lookup (.file other) with
  | some earlier => exact hclear' other earlier hold
  | none =>
      rw [List.lookup_append, hold, Option.none_or] at hlookup
      obtain ⟨rfl, -⟩ := Prod.mk.inj (List.mem_singleton.mp (mem_of_lookup hlookup))
      exact MemoKey.file.inj hkey ▸ hplace

include hhere

theorem Cleared.passes (hunit : FileUnit fs unit place) (hreads : Reads c unit delimiters parsed)
    (h : Cleared c fs (stack ++ [place]) unit.path (includeTags parsed.template) m m') :
    Passes c fs stack place m m' := by
  intro hclear
  obtain ⟨hclear', hall⟩ := h (hclear.more [place])
  have hplace := not_doomed_of_tags hhere hunit hreads fun _ => hall
  exact ⟨hplace, hclear'.less hplace⟩

theorem runParsed_comes (hcompile : Comes c fs (stack ++ [place]) (compile (stack ++ [place])))
    (hunit : FileUnit fs unit place) (hreads : Reads c unit delimiters parsed)
    (hnil : parsed.complaints = []) (hstack : place ∉ stack) (hroomy : Roomy c fs stack place)
    (s : State) :
    Ends (runParsed c fs compile unit stack parsed.template) s
      (fun _ s' => Passes c fs stack place s.memo s'.memo)
      fun fault s' => Fails c fs stack place s.memo fault s'.memo := by
  have htoList : stack ++ unit.path.toList = stack ++ [place] := by rw [hunit.path]; rfl
  rw [runParsed_eq, htoList]
  refine Ends.bind (shadowings_ends _ s) ?_
  intro _ s₁ hmemo
  rw [← hmemo]
  refine Ends.bind ((includes_comes hhere hcompile unit _ _ s₁ ?_).imp (fun _ _ h => h) ?_) ?_
  · intro tag htag found hfind hout
    have hincludes := hunit.includes hhere hreads htag hfind
    exact ⟨hroomy.lt hincludes hout, hroomy.step hincludes hout⟩
  · intro fault s' hfault
    refine ⟨fun hstopping => ?_, fun file reason h => ?_⟩
    · obtain ⟨tag, htag, found, hfind, hdoomed⟩ := hfault.1 hstopping
      exact .of_tag hhere hunit hreads hnil hstack htag hfind hdoomed
    · exact (hfault.2 file reason h).passes hhere hunit hreads
  · intro done s' hcleared
    have hpasses := hcleared.passes hhere hunit hreads
    dsimp only
    split
    · split
      · refine Ends.bind (finish_ends unit _ [] done.sources s') ?_
        rintro comp s'' ⟨hmemo', -⟩
        exact Ends.pure (hmemo' ▸ hpasses)
      · exact Ends.throw ⟨False.elim, nofun⟩
    · refine Ends.bind (finish_ends unit none done.diagnostics done.sources s') ?_
      rintro comp s'' ⟨hmemo', -⟩
      exact Ends.pure (hmemo' ▸ hpasses)

theorem run_comes (hcompile : Comes c fs (stack ++ [place]) (compile (stack ++ [place])))
    (hunit : FileUnit fs unit place) (hstack : place ∉ stack) (hroomy : Roomy c fs stack place)
    (s : State) :
    Ends (run c fs compile unit stack) s (fun _ s' => Passes c fs stack place s.memo s'.memo)
      fun fault s' => Fails c fs stack place s.memo fault s'.memo := by
  have hstops : (∀ delimiters parsed, ¬ Reads c unit delimiters parsed) →
      Doomed c fs stack place := fun h => .here hstack (.of_unit hhere hunit h)
  rw [run]
  refine Ends.bind ((liftConfig_ends (c.config.delimiters c.syntaxName) s).imp (fun _ _ h => h) ?_)
    ?_
  · rintro fault s' ⟨rfl, hbad, hother⟩
    refine ⟨fun _ => hstops fun delimiters parsed hreads => ?_, fun file reason h => ?_⟩
    · exact hbad delimiters hreads.configured
    · exact absurd h (hother file reason)
  · rintro delimiters s' ⟨rfl, hdelimiters⟩
    dsimp only
    split
    · next stop hstop =>
        refine Ends.throw ⟨fun _ => hstops fun delimiters' parsed hreads => ?_, by rintro _ _ ⟨⟩⟩
        obtain rfl := Except.ok.inj (hdelimiters.symm.trans hreads.configured)
        cases hstop.symm.trans hreads.parses
    · next parsed hparsed =>
        have hreads : Reads c unit delimiters parsed := ⟨hdelimiters, hparsed⟩
        by_cases hnil : parsed.complaints = []
        · rw [if_pos (List.isEmpty_iff.mpr hnil)]
          exact runParsed_comes hhere hcompile hunit hreads hnil hstack hroomy s'
        · rw [if_neg fun h => hnil (List.isEmpty_iff.mp h)]
          refine Ends.bind (finish_ends unit none _ unit.sources s') ?_
          rintro comp s'' ⟨hmemo, -⟩
          refine Ends.pure (hmemo ▸ fun hclear => ⟨?_, hclear⟩)
          exact not_doomed_of_tags hhere hunit hreads fun h => absurd h hnil

theorem compileUnit_comes (hcompile : Comes c fs (stack ++ [place]) (compile (stack ++ [place])))
    (hunit : FileUnit fs unit place) (hstack : place ∉ stack) (hroomy : Roomy c fs stack place)
    (s : State) :
    Ends (compileUnit c fs compile unit (.file place) stack) s
      (fun _ s' => Passes c fs stack place s.memo s'.memo)
      fun fault s' => Fails c fs stack place s.memo fault s'.memo := by
  rw [compileUnit]
  refine Ends.step (remembered_apply (.file place) s) ?_
  cases hlookup : s.memo.lookup (.file place) with
  | some earlier =>
      refine Ends.bind (tell_ends _ s) ?_
      intro _ s' hmemo
      refine Ends.pure fun hclear => ?_
      rw [hmemo]
      exact ⟨hclear place earlier hlookup, hclear⟩
  | none =>
      refine Ends.bind (tell_ends _ s) ?_
      intro _ s₁ hmemo
      rw [← hmemo]
      refine Ends.bind (run_comes hhere hcompile hunit hstack hroomy s₁) ?_
      intro o s' hpasses
      by_cases hcontextual : o.contextual
      · rw [if_pos hcontextual]
        exact Ends.pure hpasses
      · rw [if_neg hcontextual]
        refine Ends.bind (remember_ends (.file place) o.compilation s') ?_
        intro result s'' hremember
        refine Ends.pure ?_
        rcases hremember with ⟨-, hmemo'⟩ | ⟨-, -, hmemo'⟩
        · rwa [hmemo']
        · rw [hmemo']
          exact hpasses.add rfl

/-- Files are compiled like this from every stack. -/
theorem compilePath_comes (fuel : Nat) : Comes c fs stack (compilePath c fs fuel stack) := by
  induction fuel generalizing stack with
  | zero =>
      intro path s _ _ _
      exact Ends.throw ⟨False.elim, nofun⟩
  | succ fuel ih =>
      intro path s htext hstack hroomy
      have hunread : ∀ fault, fs.readText path = .error fault →
          Passes c fs stack (fs.resolve path) s.memo s.memo :=
        fun fault hfault hclear => ⟨not_doomed_of_textAt (htext.symm.trans hfault), hclear⟩
      rw [compilePath]
      refine Ends.bind ((liftRead_ends ((fs.locate path).mapError (path, ·)) s).imp
        (fun _ _ h => h) ?_) ?_
      · rintro fault s' ⟨rfl, file, reason, hlocate, rfl⟩
        exact ⟨False.elim, fun _ _ _ => hunread reason (readText_of_locate hlocate).2⟩
      · rintro resolved s' ⟨rfl, hlocate⟩
        obtain rfl := resolve_of_locate hlocate
        refine Ends.step (remembered_apply (.file (fs.resolve path)) s') ?_
        cases hlookup : s'.memo.lookup (.file (fs.resolve path)) with
        | some earlier =>
            refine Ends.bind (tell_ends _ s') ?_
            intro _ s'' hmemo
            refine Ends.pure fun hclear => ?_
            rw [hmemo]
            exact ⟨hclear _ earlier hlookup, hclear⟩
        | none =>
            dsimp only
            split
            · next fault hfault => exact Ends.throw ⟨False.elim, fun _ _ _ => hunread fault hfault⟩
            · next text hread =>
                have hunit : FileUnit fs
                    { name := path.toString, text, path := some (fs.resolve path) }
                    (fs.resolve path) := ⟨rfl, rfl, path, rfl, rfl, hread⟩
                exact compileUnit_comes hhere ih hunit hstack hroomy s'

end

/-! ## From the start -/

/-- A new compiler that comes back from a file has read it. -/
theorem readText_of_compileFile {p : Path} {comp : Compilation} {s : State}
    (h : c.compileFile fs p {} = .ok comp s) : ∃ text, fs.readText p = .ok text := by
  have hends : Ends (c.compileFile fs p) {} (fun _ _ => ∃ text, fs.readText p = .ok text)
      fun _ _ => True := by
    refine Ends.bind (P := fun _ _ => ∃ text, fs.readText p = .ok text) ?_ fun _ _ h => Ends.pure h
    rw [includeFuel, compilePath]
    refine Ends.bind ((liftRead_ends ((fs.locate p).mapError (p, ·)) {}).imp (fun _ _ h => h)
      fun _ _ _ => trivial) ?_
    rintro resolved s' ⟨rfl, -⟩
    refine Ends.step (remembered_apply (.file resolved) {}) ?_
    dsimp only [List.lookup_nil]
    split
    · exact Ends.throw trivial
    · next text htext =>
        exact Ends.of_forall (fun _ _ => ⟨text, htext⟩) fun _ _ => trivial
  exact hends.of_ok h

section

variable {p : Path} {comp : Compilation} {s : State}

include hhere

theorem readText_eq_textAt (h : c.compileFile fs p {} = .ok comp s) :
    fs.readText p = fs.textAt (fs.resolve p) := by
  obtain ⟨text, hread⟩ := readText_of_compileFile h
  exact hread.trans (fs.textAt_of_readText hhere hread).symm

/-- A new compiler does not come back from a doomed file. -/
theorem not_doomed_of_compileFile (hroomy : Roomy c fs [] (fs.resolve p))
    (h : c.compileFile fs p {} = .ok comp s) : ¬ Doomed c fs [] (fs.resolve p) := by
  have hcomes := compilePath_comes hhere c.includeFuel p {} (readText_eq_textAt hhere h)
    List.not_mem_nil hroomy
  have hends : Ends (c.compileFile fs p) {}
      (fun _ s' => Passes c fs [] (fs.resolve p) [] s'.memo) fun _ _ => True :=
    Ends.bind (hcomes.imp (fun _ _ h => h) fun _ _ _ => trivial) fun _ _ h => Ends.pure h
  exact (hends.of_ok h nofun).1

/-- Nor from a file that is unreadable for those that include it. -/
theorem not_unreadable_of_compileFile
    (h : c.compileFile fs p {} = .ok comp s) (file : Path) (reason : ReadFault) :
    ¬ Unreadable c fs p file reason := by
  obtain ⟨-, o, from', rfl, ha, hbuilt⟩ :=
    (compileFile_ends p Accounted.nil Memory.Kept.nil).of_ok h
  intro hunreadable
  cases hunreadable with
  | noText _ herror =>
      obtain ⟨text, hread⟩ := readText_of_compileFile h
      cases herror.symm.trans hread
  | badTag hunit htag =>
      obtain ⟨_, _, hat⟩ := htag.at hhere hunit
      exact hbuilt.not_blocked hhere ha.unit (.inr ⟨_, _, file, reason, hat⟩)

/-- If a new compiler comes back from a file, so does one that has a memory. -/
theorem compileFile_returns (hroomy : Roomy c fs [] (fs.resolve p))
    (h : c.compileFile fs p {} = .ok comp s) (history : List Request) :
    ∃ comp' s', c.compileFile fs p (State.after c fs history) = .ok comp' s' := by
  have hcomes := compilePath_comes hhere c.includeFuel p (State.after c fs history)
    (readText_eq_textAt hhere h) List.not_mem_nil hroomy
  have haccount : Compiles c fs [] [] (compilePath c fs c.includeFuel []) := compilePath_ends _
  have hends := haccount p _ (State.accounted_after c fs history) Memory.Kept.nil
  have hfaults : Ends (c.compileFile fs p) (State.after c fs history) (fun _ _ => True)
      fun fault _ => ¬ fault.Outside := by
    have hboth := hcomes.and hends
    refine Ends.bind (hboth.imp (fun _ _ _ => trivial) ?_) fun _ _ _ => Ends.pure trivial
    rintro fault s' ⟨hfails, -, hunreadable⟩ houtside
    cases fault with
    | config | stopped =>
        exact not_doomed_of_compileFile hhere hroomy h (hfails.doomed trivial)
    | unreadable file reason =>
        exact not_unreadable_of_compileFile hhere h file reason (hunreadable file reason rfl)
    | generation | outOfFuel => exact houtside
  have hkeeps := Keeps.perform c fs (.file p) _ (State.settled_after c fs history)
  obtain ⟨comp', s', hrun, -⟩ :=
    (hfaults.and hkeeps).exists_ok fun _ _ hfault => hfault.1 hfault.2.2
  exact ⟨comp', s', hrun⟩

end

end Compiler

end TemplateCompiler
