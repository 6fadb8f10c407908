import TemplateCompiler.Proofs.Requests

/-!
# Where a compilation comes from

A compilation has an account: what its source was parsed into, and what each of its include tags
came to, in order. A tag is refused for a problem, or it reaches the compilation of a file, which
has an account of its own. The outcome that is reached was made from the stack of this compilation,
or from some other stack if it is remembered.

All that is remembered has an account that does not depend on a stack. So a compilation that is
taken from the memory says as much as one that was just made. An outcome that does depend on the
stack is made anew each time: it was not in the memory that the compiler started with.
-/

namespace TemplateCompiler

namespace Compiler

open Template (walkAll)

variable (c : Compiler) (fs : FileSystem)

/-! ## Units -/

/-- What the compiler reads in a unit. -/
structure Reads (unit : SourceUnit) (delimiters : Delimiters) (parsed : Parsed) : Prop where
  configured : c.config.delimiters c.syntaxName = .ok delimiters
  parses :
    parse ⟨unit.name, c.whitespace.getD c.config.whitespace⟩ delimiters unit.text = .ok parsed

/-- The unit of a file, under a path that leads there. -/
structure FileUnit (unit : SourceUnit) (place : Path) : Prop where
  path : unit.path = some place
  origin : unit.origin = none
  text : ∃ p, fs.resolve p = place ∧ unit.name = p.toString ∧ fs.readText p = .ok unit.text

/-- The unit that a compilation is remembered for. -/
def MemoKey.Of (unit : SourceUnit) : MemoKey → Prop
  | .file place => FileUnit fs unit place
  | .inline name text origin path => unit = ⟨name, text, path, origin⟩

theorem Reads.unique {c : Compiler} {unit : SourceUnit} {delimiters delimiters' : Delimiters}
    {parsed parsed' : Parsed} (h : Reads c unit delimiters parsed)
    (h' : Reads c unit delimiters' parsed') : delimiters = delimiters' ∧ parsed = parsed' := by
  obtain rfl := Except.ok.inj (h.configured.symm.trans h'.configured)
  exact ⟨rfl, Except.ok.inj (h.parses.symm.trans h'.parses)⟩

/-- The diagnostics of a unit, led back to its origin. -/
def leadBack (unit : SourceUnit) (diagnostics : List Diagnostic) : List Diagnostic :=
  match unit.origin with
  | none => diagnostics
  | some site => diagnostics.map (·.through site)

theorem leadBack_of_none {unit : SourceUnit} (h : unit.origin = none)
    (diagnostics : List Diagnostic) : leadBack unit diagnostics = diagnostics := by
  rw [leadBack, h]

theorem leadBack_eq_nil {unit : SourceUnit} {diagnostics : List Diagnostic} :
    leadBack unit diagnostics = [] ↔ diagnostics = [] := by
  unfold leadBack
  split
  · exact Iff.rfl
  · exact List.map_eq_nil_iff

theorem mem_leadBack {unit : SourceUnit} {diagnostics : List Diagnostic} {d : Diagnostic}
    (h : d ∈ leadBack unit diagnostics) : ∃ inner ∈ diagnostics, d.span = inner.span ∧
      d.secondary = inner.secondary ++ unit.origin.toList := by
  unfold leadBack at h
  split at h
  · next horigin => exact ⟨d, h, rfl, by rw [horigin, Option.toList_none, List.append_nil]⟩
  · next site horigin =>
      obtain ⟨inner, hinner, rfl⟩ := List.mem_map.mp h
      exact ⟨inner, hinner, rfl, by rw [horigin]; rfl⟩

/-! ## Unreadable files -/

/-- The fault of the first tag whose template cannot be looked for. -/
def lookupFault? (includer : Option Path) (tags : List (String × Span)) :
    Option (Path × ReadFault) :=
  tags.findSome? fun tag =>
    match c.config.findTemplate fs tag.1 includer with
    | .ok _ => none
    | .error fault => some fault

/-- The template of an include tag cannot be looked for. -/
structure TagFault (unit : SourceUnit) (file : Path) (fault : ReadFault) : Prop where
  reads : ∃ delimiters parsed, Reads c unit delimiters parsed ∧ parsed.complaints = [] ∧
    lookupFault? c fs unit.path (includeTags parsed.template) = some (file, fault)

/-- Why a file is unreadable for those that include it: there is no text in it, or one of its own
include tags ends the compilation. -/
inductive Unreadable (p file : Path) (fault : ReadFault) : Prop
  | noText (hfile : file = p) (h : fs.readText p = .error fault)
  | badTag {unit : SourceUnit} (hunit : FileUnit fs unit (fs.resolve p))
      (h : TagFault c fs unit file fault)

/-! ## Shares -/

/-- Problems that come from the stack. -/
def IncludeProblem.contextual : IncludeProblem → Bool
  | .circular _ | .tooDeep _ => true
  | .notFound _ _ | .unreadable _ _ => false

/-- What an include tag comes to: a problem, or an outcome and the stack that it was made from. -/
inductive Share where
  | refused (problem : IncludeProblem)
  | reached (stack : List Path) (outcome : Outcome)

namespace Share

def contextual : Share → Bool
  | .refused problem => IncludeProblem.contextual problem
  | .reached _ o => o.contextual

def program? : Share → Option Program
  | .refused _ => none
  | .reached _ o => o.compilation.program

def sources : Share → Report.Sources
  | .refused _ => []
  | .reached _ o => o.compilation.sources

/-- What the share of the tag at a span adds to the diagnostics. -/
def diagnostics (span : Span) : Share → List Diagnostic
  | .refused problem => [⟨problem.message, span, [], .error⟩]
  | .reached _ o =>
    if o.compilation.program.isSome then [] else o.compilation.diagnostics.map (·.through span)

end Share

/-- An include tag and its share. -/
abbrev Entry := (String × Span) × Share

namespace Included

/-- What the includes have come to behind one more tag. -/
def add (done : Included) (entry : Entry) : Included where
  programs := (entry.2.program?.map (entry.1.2, ·)).toList ++ done.programs
  diagnostics := done.diagnostics ++ entry.2.diagnostics entry.1.2
  sources := addSources done.sources entry.2.sources
  contextual := done.contextual || entry.2.contextual

theorem add_refused (done : Included) (path : String) (span : Span) {problem : IncludeProblem}
    (h : IncludeProblem.contextual problem = false) :
    done.add ((path, span), .refused problem) = done.refuse span problem := by
  simp [add, refuse, Share.program?, Share.diagnostics, Share.sources, Share.contextual, h,
    addSources]

theorem add_contextual (done : Included) (path : String) (span : Span) {problem : IncludeProblem}
    (h : IncludeProblem.contextual problem = true) :
    done.add ((path, span), .refused problem) =
      { done.refuse span problem with contextual := true } := by
  simp [add, refuse, Share.program?, Share.diagnostics, Share.sources, Share.contextual, h,
    addSources]

variable (entries : List Entry) (done : Included)

theorem contextual_foldl : (entries.foldl add done).contextual =
    (done.contextual || entries.any (·.2.contextual)) := by
  induction entries generalizing done with
  | nil => simp
  | cons entry entries ih => rw [List.foldl_cons, ih, List.any_cons, add, Bool.or_assoc]

theorem diagnostics_foldl : (entries.foldl add done).diagnostics =
    done.diagnostics ++ entries.flatMap fun entry => entry.2.diagnostics entry.1.2 := by
  induction entries generalizing done with
  | nil => simp
  | cons entry entries ih =>
      rw [List.foldl_cons, ih, List.flatMap_cons, add, List.append_assoc]

/-- The program under a span is the share of a tag with that span. -/
theorem mem_programs_foldl {span : Span} {program : Program}
    (h : (span, program) ∈ (entries.foldl add done).programs) :
    (span, program) ∈ done.programs ∨
      ∃ entry ∈ entries, entry.1.2 = span ∧ entry.2.program? = some program := by
  induction entries generalizing done with
  | nil => exact .inl h
  | cons entry entries ih =>
      rcases ih (done.add entry) h with hadd | ⟨later, hlater, hspan⟩
      · rcases List.mem_append.mp hadd with hnew | hold
        · obtain ⟨program', hprogram, heq⟩ := Option.map_eq_some_iff.mp (Option.mem_toList.mp hnew)
          obtain ⟨rfl, rfl⟩ := Prod.mk.inj heq
          exact .inr ⟨entry, List.mem_cons_self, rfl, hprogram⟩
        · exact .inl hold
      · exact .inr ⟨later, List.mem_cons_of_mem _ hlater, hspan⟩

end Included

/-! ## Accounts -/

/-- The compilations that a compiler remembers. -/
abbrev Memory := List (MemoKey × Compilation)

/-- What is remembered stays. -/
def Memory.Kept (m m' : Memory) : Prop :=
  ∀ key comp, m.lookup key = some comp → m'.lookup key = some comp

section

variable (m₀ m : Memory)

/-- The outcome for a file that is reached from a stack: one that depends on a stack was made from
this one and is not in the memory `m₀` of the start, and any other is remembered in `m`. -/
structure Arrives (stack : List Path) (place : Path) (from' : List Path) (o : Outcome) : Prop where
  unit : FileUnit fs o.compilation.unit place
  here : o.contextual = true → from' = stack
  new : o.contextual = true → m₀.lookup (.file place) = none
  kept : o.contextual = false → m.lookup (.file place) = some o.compilation

/-- The share of an include tag, by the first test that it does not pass. -/
inductive Fits (unit : SourceUnit) (stack : List Path) : String × Span → Share → Prop
  | missing {path span} (hfind : c.config.findTemplate fs path unit.path = .ok none) :
      Fits unit stack (path, span) (.refused (.notFound path c.config.describeDirs))
  | circular {path span found} (hfind : c.config.findTemplate fs path unit.path = .ok (some found))
      (hstack : fs.resolve found ∈ stack) : Fits unit stack (path, span) (.refused (.circular path))
  | tooDeep {path span found} (hfind : c.config.findTemplate fs path unit.path = .ok (some found))
      (hstack : fs.resolve found ∉ stack) (hdepth : c.maxIncludeDepth ≤ stack.length) :
      Fits unit stack (path, span) (.refused (.tooDeep c.maxIncludeDepth))
  | unreadable {path span found file fault}
      (hfind : c.config.findTemplate fs path unit.path = .ok (some found))
      (hstack : fs.resolve found ∉ stack) (hdepth : stack.length < c.maxIncludeDepth)
      (h : Unreadable c fs found file fault) :
      Fits unit stack (path, span) (.refused (.unreadable path (fault.message file)))
  | reached {path span found from' o}
      (hfind : c.config.findTemplate fs path unit.path = .ok (some found))
      (hstack : fs.resolve found ∉ stack) (hdepth : stack.length < c.maxIncludeDepth)
      (h : Arrives fs m₀ m stack (fs.resolve found) from' o) :
      Fits unit stack (path, span) (.reached from' o)

/-- The compilation of a template whose includes have come to `done`. -/
structure Concludes (comp : Compilation) (t : Template) (done : Included) : Prop where
  diagnostics : comp.diagnostics = leadBack comp.unit done.diagnostics
  undecided : comp.program = none → done.diagnostics ≠ []
  decided : ∀ program, comp.program = some program → done.diagnostics = [] ∧
    (Generator.ofTemplate t done.programs (c.config.escaperFor comp.unit.name)).program t
      comp.unit.name = .ok program
  sources : comp.sources = done.sources

/-- The account of a template without complaints: a share for each include tag. -/
structure Itemized (stack : List Path) (comp : Compilation) (delimiters : Delimiters)
    (parsed : Parsed) (entries : List Entry) : Prop where
  reads : Reads c comp.unit delimiters parsed
  flawless : parsed.complaints = []
  tags : entries.map Prod.fst = includeTags parsed.template
  fits : ∀ entry ∈ entries,
    Fits c fs m₀ m comp.unit (stack ++ comp.unit.path.toList) entry.1 entry.2
  ends : Concludes c comp parsed.template
    (entries.foldl Included.add (Included.ofUnit comp.unit parsed.template))

/-- The account of an outcome that is made from a stack. -/
inductive Built : List Path → Outcome → Prop
  | broken {stack comp delimiters parsed} (hreads : Reads c comp.unit delimiters parsed)
      (hne : parsed.complaints ≠ []) (hprogram : comp.program = none)
      (hdiagnostics : comp.diagnostics = leadBack comp.unit (parsed.diagnostics delimiters))
      (hsources : comp.sources = comp.unit.sources) : Built stack ⟨comp, false⟩
  | clean {stack comp delimiters parsed} {entries : List Entry}
      (h : Itemized c fs m₀ m stack comp delimiters parsed entries)
      (hshares : ∀ entry ∈ entries, ∀ from' o, entry.2 = .reached from' o → Built from' o) :
      Built stack ⟨comp, entries.any (·.2.contextual)⟩

end

/-- Everything that is remembered has an account that does not depend on a stack. -/
def Accounted (m : Memory) : Prop :=
  ∀ key comp, m.lookup key = some comp →
    key.Of fs comp.unit ∧ ∃ from', Built c fs [] m from' ⟨comp, false⟩

/-- What is remembered stays, and what is added has an account in which all of this stack is on the
stack of its includes. -/
structure Extends (stack : List Path) (m m' : Memory) : Prop where
  kept : m.Kept m'
  added : ∀ key comp, m'.lookup key = some comp → m.lookup key = some comp ∨
    key.Of fs comp.unit ∧ ∃ from', (∀ place ∈ stack, place ∈ from' ++ comp.unit.path.toList) ∧
      Built c fs [] m' from' ⟨comp, false⟩

variable {c fs} {m₀ m m' m'' : Memory} {stack : List Path} {unit : SourceUnit}

/-! ## Growing memories -/

theorem Memory.Kept.refl : m.Kept m :=
  fun _ _ h => h

theorem Memory.Kept.nil : Memory.Kept [] m :=
  nofun

theorem Memory.Kept.lookup_eq_none (h : m.Kept m') {key : MemoKey} (hnone : m'.lookup key = none) :
    m.lookup key = none := by
  cases hkey : m.lookup key with
  | none => rfl
  | some comp => cases hnone.symm.trans (h key comp hkey)

theorem Memory.Kept.trans (h : m.Kept m') (h' : m'.Kept m'') : m.Kept m'' :=
  fun key comp hkey => h' key comp (h key comp hkey)

theorem Fits.mono {tag : String × Span} {share : Share} (hkept : m.Kept m')
    (h : Fits c fs m₀ m unit stack tag share) : Fits c fs m₀ m' unit stack tag share := by
  cases h with
  | missing hfind => exact .missing hfind
  | circular hfind hstack => exact .circular hfind hstack
  | tooDeep hfind hstack hdepth => exact .tooDeep hfind hstack hdepth
  | unreadable hfind hstack hdepth h => exact .unreadable hfind hstack hdepth h
  | reached hfind hstack hdepth h =>
      exact .reached hfind hstack hdepth
        ⟨h.unit, h.here, h.new, fun hfalse => hkept _ _ (h.kept hfalse)⟩

/-- An account stays one as long as nothing is forgotten. -/
theorem Built.mono {o : Outcome} (hkept : m.Kept m') (h : Built c fs m₀ m stack o) :
    Built c fs m₀ m' stack o := by
  induction h with
  | broken hreads hne hprogram hdiagnostics hsources =>
      exact .broken hreads hne hprogram hdiagnostics hsources
  | clean h _ ih =>
      exact .clean { h with fits := fun entry hentry => (h.fits entry hentry).mono hkept } ih

/-- Nothing in an account that does not depend on a stack depends on one. -/
theorem contextual_of_mem {entries : List Entry} (h : entries.any (·.2.contextual) = false)
    {entry : Entry} (hentry : entry ∈ entries) : entry.2.contextual = false := by
  rw [List.any_eq_false] at h
  exact Bool.eq_false_iff.mpr (h entry hentry)

/-- Such an account can be used whatever the compiler started with. -/
theorem Built.restart {o : Outcome} (h : Built c fs m₀ m stack o) (hplain : o.contextual = false)
    (m₁ : Memory) : Built c fs m₁ m stack o := by
  induction h with
  | broken hreads hne hprogram hdiagnostics hsources =>
      exact .broken hreads hne hprogram hdiagnostics hsources
  | clean h _ ih =>
      refine .clean { h with fits := fun entry hentry => ?_ } ?_
      · have hflag := contextual_of_mem hplain hentry
        have hfit := h.fits entry hentry
        generalize entry.1 = tag, entry.2 = share at hflag hfit
        cases hfit with
        | missing hfind => exact .missing hfind
        | circular => cases hflag
        | tooDeep => cases hflag
        | unreadable hfind hstack hdepth h => exact .unreadable hfind hstack hdepth h
        | reached hfind hstack hdepth h =>
            refine .reached hfind hstack hdepth ⟨h.unit, h.here, fun htrue => ?_, h.kept⟩
            cases hflag.symm.trans htrue
      · intro entry hentry from' o hshare
        refine ih entry hentry from' o hshare ?_
        have hflag := contextual_of_mem hplain hentry
        rwa [hshare] at hflag

theorem Accounted.nil : Accounted c fs [] :=
  nofun

namespace Extends

theorem refl : Extends c fs stack m m where
  kept _ _ h := h
  added _ _ h := .inl h

theorem accounted (h : Extends c fs stack m m') (hm : Accounted c fs m) : Accounted c fs m' := by
  intro key comp hkey
  rcases h.added key comp hkey with hold | ⟨hof, from', -, hbuilt⟩
  · obtain ⟨hof, from', hbuilt⟩ := hm key comp hold
    exact ⟨hof, from', hbuilt.mono h.kept⟩
  · exact ⟨hof, from', hbuilt⟩

theorem trans (h : Extends c fs stack m m') (h' : Extends c fs stack m' m'') :
    Extends c fs stack m m'' where
  kept := h.kept.trans h'.kept
  added key comp hkey := by
    rcases h'.added key comp hkey with hold | hnew
    · rcases h.added key comp hold with holder | ⟨hof, from', hfrom, hbuilt⟩
      · exact .inl holder
      · exact .inr ⟨hof, from', hfrom, hbuilt.mono h'.kept⟩
    · exact .inr hnew

/-- A shorter stack asks for less. -/
theorem shorten {more : List Path} (h : Extends c fs (stack ++ more) m m') :
    Extends c fs stack m m' where
  kept := h.kept
  added key comp hkey := by
    refine (h.added key comp hkey).imp_right ?_
    rintro ⟨hof, from', hfrom, hbuilt⟩
    exact ⟨hof, from', fun place hplace => hfrom place (List.mem_append_left _ hplace), hbuilt⟩

/-- Remembering one more compilation that has an account. -/
theorem add {key : MemoKey} {comp : Compilation} (hnone : m.lookup key = none)
    (hkey : key.Of fs comp.unit) (hbuilt : Built c fs m₀ m stack ⟨comp, false⟩) :
    Extends c fs (stack ++ comp.unit.path.toList) m (m ++ [(key, comp)]) := by
  have hkept : m.Kept (m ++ [(key, comp)]) := by
    intro k e hk
    rw [List.lookup_append, hk, Option.some_or]
  refine ⟨hkept, fun k e hlookup => ?_⟩
  cases hk : m.lookup k with
  | some e' => exact .inl ((hkept k e' hk).symm.trans hlookup)
  | none =>
      rw [List.lookup_append, hk, Option.none_or] at hlookup
      have heq := List.mem_singleton.mp (mem_of_lookup hlookup)
      obtain ⟨rfl, rfl⟩ := Prod.mk.inj heq
      exact .inr ⟨hkey, stack, fun _ h => h, (hbuilt.restart rfl []).mono hkept⟩

end Extends

end Compiler

end TemplateCompiler
