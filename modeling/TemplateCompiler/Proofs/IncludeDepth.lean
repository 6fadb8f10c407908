import TemplateCompiler.Proofs.Accounting

/-!
# How deep includes go

A file is compiled with the stack of the files that include it, and each include in it is a call of
the same function with a stack that is longer by one. What stops this is the room that is left on
the stack: an include of a file on the stack is refused, and so is one from a stack that is full.

To say what holds in each of these calls there is a second compiler, which is like the first but
checks at each call that the stack and the nesting of the units are within their bounds. Where they
are not it runs out of fuel, a fault that nothing handles and that no request ends with. The two are
equal, so no check ever fails. As this holds for any two amounts of fuel that are enough, the fuel
does not decide anything either.
-/

namespace TemplateCompiler

namespace Compiler

variable {c : Compiler} {fs : FileSystem}

/-! ## Bounds -/

/-- The longest stack there can be. The file of a request is on it even where nothing may be
included. -/
def stackLimit (c : Compiler) : Nat :=
  max 1 c.maxIncludeDepth.toNat

/-- The bounds of a unit that is compiled inside of `nesting - 1` others. On the stack are the
resolved paths of all of them that have one, its own included. -/
structure Within (c : Compiler) (nesting : Nat) (stack : List Path) : Prop where
  distinct : stack.Nodup
  length_le : stack.length ≤ c.stackLimit
  nesting_le : nesting ≤ c.stackLimit + 1
  /-- Of the nested units the outermost alone may have no path. -/
  placed : nesting ≤ stack.length + 1

instance (c : Compiler) (nesting : Nat) (stack : List Path) : Decidable (c.Within nesting stack) :=
  decidable_of_iff
    (stack.Nodup ∧ stack.length ≤ c.stackLimit ∧ nesting ≤ c.stackLimit + 1 ∧
      nesting ≤ stack.length + 1)
    ⟨fun h => ⟨h.1, h.2.1, h.2.2.1, h.2.2.2⟩, fun h => ⟨h.1, h.2, h.3, h.4⟩⟩

/-- The unit of a request includes no other yet. -/
theorem Within.first (c : Compiler) (place : Option Path) : c.Within 1 place.toList := by
  have hlength : place.toList.length ≤ 1 := by cases place <;> simp
  refine ⟨?_, ?_, by omega, by omega⟩
  · cases place with
    | none => exact List.nodup_nil
    | some place => exact List.nodup_singleton place
  · rw [stackLimit]
    omega

/-- A file that is not on the stack yet can be included while there is room. -/
theorem Within.deeper {nesting : Nat} {stack : List Path} {place : Path}
    (h : c.Within nesting stack) (hnew : place ∉ stack) (hroom : stack.length < c.maxIncludeDepth) :
    c.Within (nesting + 1) (stack ++ [place]) := by
  have hplaced := h.placed
  have hdistinct := h.distinct.concat hnew
  rw [List.concat_eq_append] at hdistinct
  refine ⟨hdistinct, ?_, ?_, ?_⟩
  · rw [List.length_append, List.length_singleton, stackLimit]
    omega
  · rw [stackLimit]
    omega
  · rw [List.length_append, List.length_singleton]
    omega

/-- Why an include tag with this path is not followed, if it names the file at `place`. -/
inductive Barred (c : Compiler) (stack : List Path) (place : Path) (path : String) :
    IncludeProblem → Prop
  | circular (h : place ∈ stack) : Barred c stack place path (.circular path)
  | tooDeep (hnew : place ∉ stack) (h : c.maxIncludeDepth ≤ stack.length) :
      Barred c stack place path (.tooDeep c.maxIncludeDepth)

/-- Including a file breaks the bounds only where the compiler refuses to. -/
theorem Within.barred {nesting : Nat} {stack : List Path} {place : Path}
    (h : c.Within nesting stack) (hbreaks : ¬ c.Within (nesting + 1) (stack ++ [place]))
    (path : String) : ∃ problem, Barred c stack place path problem := by
  by_cases hstack : place ∈ stack
  · exact ⟨_, .circular hstack⟩
  · by_cases hdepth : c.maxIncludeDepth ≤ stack.length
    · exact ⟨_, .tooDeep hstack hdepth⟩
    · exact absurd (h.deeper hstack (Int.not_le.mp hdepth)) hbreaks

/-! ## A compiler that checks -/

/-- One call of the function that compiles a file. `compile` compiles what the file includes. -/
def pathStep (c : Compiler) (fs : FileSystem) (compile : List Path → Path → CompileM Outcome)
    (stack : List Path) (path : Path) : CompileM Outcome := do
  let resolved ← locate fs path
  match ← remembered (.file resolved) with
  | some earlier =>
    tell (.reusing path.toString)
    return ⟨earlier, false⟩
  | none =>
    match fs.readText path with
    | .error fault => throw (.unreadable path fault)
    | .ok text =>
      let unit : SourceUnit := { name := path.toString, text, path := some resolved }
      compileUnit c fs compile unit (.file resolved) stack

theorem compilePath_succ (fuel : Nat) (stack : List Path) (path : Path) :
    compilePath c fs (fuel + 1) stack path = pathStep c fs (compilePath c fs fuel) stack path :=
  rfl

/-- Work on a unit within its bounds. -/
def guarded {α : Type} (c : Compiler) (nesting : Nat) (stack : List Path) (work : CompileM α) :
    CompileM α :=
  if c.Within nesting stack then work else throw .outOfFuel

theorem guarded_of_within {α : Type} {nesting : Nat} {stack : List Path}
    (h : c.Within nesting stack) (work : CompileM α) : guarded c nesting stack work = work :=
  if_pos h

/-- Compiles a file from a stack, and checks the bounds in each call. -/
def checkedPath (c : Compiler) (fs : FileSystem) : Nat → Nat → List Path → Path → CompileM Outcome
  | 0, _, _, _ => throw .outOfFuel
  | fuel + 1, nesting, stack, path =>
    guarded c nesting (stack ++ [fs.resolve path])
      (pathStep c fs (checkedPath c fs fuel (nesting + 1)) stack path)

/-- What a compiler does at a request, with all bounds checked. -/
def Request.performChecked (c : Compiler) (fs : FileSystem) (fuel : Nat) :
    Request → CompileM Compilation
  | .file path => do
    return (← checkedPath c fs fuel 1 [] path).compilation
  | .source text name origin path => do
    let resolved ← path.mapM (locate fs)
    let unit : SourceUnit := { name, text, path := resolved, origin }
    let key : MemoKey := .inline name text origin resolved
    let work := compileUnit c fs (checkedPath c fs fuel 2) unit key []
    return (← guarded c 1 resolved.toList work).compilation

/-! ## No check fails -/

section

variable {compile compile' : List Path → Path → CompileM Outcome} {stack : List Path}
  {unit : SourceUnit}

/-- Two ways to compile do the same for the files that an include with this stack may reach. -/
def AgreeFrom (c : Compiler) (fs : FileSystem) (stack : List Path)
    (compile compile' : List Path → Path → CompileM Outcome) : Prop :=
  ∀ path, fs.resolve path ∉ stack → stack.length < c.maxIncludeDepth →
    compile stack path = compile' stack path

theorem resolveInclude_congr (h : AgreeFrom c fs stack compile compile') :
    resolveInclude c fs (compile stack) unit stack =
      resolveInclude c fs (compile' stack) unit stack := by
  funext done tag
  obtain ⟨path, span⟩ := tag
  rw [resolveInclude, resolveInclude]
  refine bind_congr fun found => ?_
  cases found with
  | none => rfl
  | some found =>
      dsimp only
      by_cases hstack : fs.resolve found ∈ stack
      · rw [if_pos (List.contains_iff_mem.mpr hstack), if_pos (List.contains_iff_mem.mpr hstack)]
      · rw [if_neg fun h => hstack (List.contains_iff_mem.mp h),
          if_neg fun h => hstack (List.contains_iff_mem.mp h)]
        by_cases hdepth : c.maxIncludeDepth ≤ stack.length
        · rw [if_pos hdepth, if_pos hdepth]
        · rw [if_neg hdepth, if_neg hdepth, h found hstack (Int.not_le.mp hdepth)]

variable (h : AgreeFrom c fs (stack ++ unit.path.toList) compile compile')

include h

theorem runParsed_congr :
    runParsed c fs compile unit stack = runParsed c fs compile' unit stack := by
  funext t
  rw [runParsed_eq, runParsed_eq]
  simp only [resolveInclude_congr h]

theorem run_congr : run c fs compile unit stack = run c fs compile' unit stack := by
  rw [run, run, runParsed_congr h]

theorem compileUnit_congr (key : MemoKey) :
    compileUnit c fs compile unit key stack = compileUnit c fs compile' unit key stack := by
  rw [compileUnit, compileUnit, run_congr h]

end

theorem locate_bind_congr {α : Type} {path : Path} {f g : Path → CompileM α}
    (h : f (fs.resolve path) = g (fs.resolve path)) :
    (locate fs path >>= f) = locate fs path >>= g := by
  rw [locate]
  cases hlocate : (fs.locate path).mapError (path, ·) with
  | error fault => rfl
  | ok resolved =>
      obtain rfl := resolve_of_locate hlocate
      exact h

theorem pathStep_congr {compile compile' : List Path → Path → CompileM Outcome} {stack : List Path}
    {path : Path} (h : AgreeFrom c fs (stack ++ [fs.resolve path]) compile compile') :
    pathStep c fs compile stack path = pathStep c fs compile' stack path := by
  refine locate_bind_congr (bind_congr fun found => ?_)
  cases found with
  | some earlier => rfl
  | none =>
      dsimp only
      split
      · rfl
      · next text _ =>
          let unit : SourceUnit := ⟨path.toString, text, some (fs.resolve path), none⟩
          have hunit : AgreeFrom c fs (stack ++ unit.path.toList) compile compile' := h
          exact compileUnit_congr hunit (.file (fs.resolve path))

/-- Enough fuel for the includes that the stack still has room for. -/
def Enough (c : Compiler) (fuel : Nat) (stack : List Path) : Prop :=
  0 < fuel ∧ c.maxIncludeDepth.toNat < fuel + stack.length

theorem Enough.includeFuel {fuel : Nat} (h : c.includeFuel ≤ fuel) (stack : List Path) :
    c.Enough fuel stack := by
  rw [Compiler.includeFuel] at h
  exact ⟨by omega, by omega⟩

theorem Enough.pred {fuel : Nat} {stack : List Path} {place : Path} (h : c.Enough (fuel + 1) stack)
    (hroom : (stack ++ [place]).length < c.maxIncludeDepth) : c.Enough fuel (stack ++ [place]) := by
  obtain ⟨-, henough⟩ := h
  rw [List.length_append, List.length_singleton] at hroom
  refine ⟨by omega, ?_⟩
  rw [List.length_append, List.length_singleton]
  omega

/-- Within the bounds the checks do not show, and neither does the fuel. The induction is on the
fuel, and what keeps both amounts enough is the room that an include takes on the stack. -/
theorem checkedPath_eq (fuel fuel' nesting : Nat) (stack : List Path) (path : Path)
    (hwithin : c.Within nesting (stack ++ [fs.resolve path])) (hfuel : c.Enough fuel stack)
    (hfuel' : c.Enough fuel' stack) :
    checkedPath c fs fuel nesting stack path = compilePath c fs fuel' stack path := by
  induction fuel generalizing fuel' nesting stack path with
  | zero => exact absurd hfuel.1 (Nat.lt_irrefl 0)
  | succ fuel ih =>
      cases fuel' with
      | zero => exact absurd hfuel'.1 (Nat.lt_irrefl 0)
      | succ fuel' =>
          rw [checkedPath, compilePath_succ, guarded_of_within hwithin]
          refine pathStep_congr fun inner hnew hroom => ?_
          exact ih fuel' (nesting + 1) _ inner (hwithin.deeper hnew hroom) (hfuel.pred hroom)
            (hfuel'.pred hroom)

theorem performChecked_eq {fuel : Nat} (hfuel : c.includeFuel ≤ fuel) (r : Request) :
    r.performChecked c fs fuel = r.perform c fs := by
  have hagree : ∀ stack, Enough c fuel stack ∧ Enough c c.includeFuel stack :=
    fun stack => ⟨Enough.includeFuel hfuel stack, Enough.includeFuel (Nat.le_refl _) stack⟩
  cases r with
  | file path =>
      have heq := checkedPath_eq fuel c.includeFuel 1 [] path
        (Within.first c (some (fs.resolve path))) (hagree []).1 (hagree []).2
      rw [Request.performChecked, Request.perform, compileFile, heq]
  | source text name origin path =>
      rw [Request.performChecked, Request.perform, compileSource]
      refine bind_congr fun resolved => ?_
      dsimp only
      rw [guarded_of_within (Within.first c resolved)]
      congr 1
      refine compileUnit_congr (fun inner hnew hroom => ?_) _
      exact checkedPath_eq fuel c.includeFuel 2 _ inner
        ((Within.first c resolved).deeper hnew hroom) (hagree _).1 (hagree _).2

/-! ## What is refused -/

section

variable {compile : Path → CompileM Outcome} {unit : SourceUnit} {stack : List Path}
  {path : String} {span : Span} {found : Path} {problem : IncludeProblem}

/-- A tag that is not followed leaves its diagnostic and nothing else: `compile` is not called, and
the state stays. -/
theorem resolveInclude_of_barred
    (hfind : c.config.findTemplate fs path unit.path = .ok (some found))
    (hbarred : Barred c stack (fs.resolve found) path problem) (done : Included) (s : State) :
    resolveInclude c fs compile unit stack done (path, span) s =
      .ok { done.refuse span problem with contextual := true } s := by
  have hlookup : liftRead (c.config.findTemplate fs path unit.path) s = .ok (some found) s := by
    rw [hfind]
    rfl
  refine (bind_apply_of_ok hlookup).trans ?_
  dsimp only
  cases hbarred with
  | circular h =>
      rw [if_pos (List.contains_iff_mem.mpr h)]
      rfl
  | tooDeep hnew h =>
      rw [if_neg fun h => hnew (List.contains_iff_mem.mp h), if_pos h]
      rfl

/-- Diagnostics are never taken back. -/
theorem resolveInclude_keeps (done : Included) (tag : String × Span) (s : State) :
    Ends (resolveInclude c fs compile unit stack done tag) s
      (fun done' _ => done.diagnostics ⊆ done'.diagnostics) fun _ _ => True := by
  obtain ⟨path, span⟩ := tag
  have hany : ∀ {α : Type} (work : CompileM α) (s : State),
      Ends work s (fun _ _ => True) fun _ _ => True :=
    fun _ _ => Ends.of_forall (fun _ _ => trivial) fun _ _ => trivial
  rw [resolveInclude]
  refine (hany _ s).bind fun found s₁ _ => ?_
  cases found with
  | none => exact Ends.pure (List.subset_append_left _ _)
  | some found =>
      dsimp only
      split
      · exact Ends.pure (List.subset_append_left _ _)
      · split
        · exact Ends.pure (List.subset_append_left _ _)
        · refine (hany _ s₁).bind fun _ s₂ _ => (hany _ s₂).bind fun result s₃ _ => ?_
          cases result with
          | error fault => exact Ends.pure (List.subset_append_left _ _)
          | ok outcome =>
              dsimp only
              split
              · exact Ends.pure (List.Subset.refl _)
              · exact Ends.pure (List.subset_append_left _ _)

theorem includes_keep (tags : List (String × Span)) (done : Included) (s : State) :
    Ends (tags.foldlM (resolveInclude c fs compile unit stack) done) s
      (fun done' _ => done.diagnostics ⊆ done'.diagnostics) fun _ _ => True := by
  induction tags generalizing done s with
  | nil => exact Ends.pure (List.Subset.refl _)
  | cons tag tags ih =>
      rw [List.foldlM_cons]
      refine (resolveInclude_keeps done tag s).bind fun done' s' hdone => ?_
      exact (ih done' s').imp (fun _ _ h => List.Subset.trans hdone h) fun _ _ h => h

theorem includes_of_barred
    (hfind : c.config.findTemplate fs path unit.path = .ok (some found))
    (hbarred : Barred c stack (fs.resolve found) path problem) {tags : List (String × Span)}
    (htag : (path, span) ∈ tags) (done : Included) (s : State) :
    Ends (tags.foldlM (resolveInclude c fs compile unit stack) done) s
      (fun done' _ => ⟨problem.message, span, [], .error⟩ ∈ done'.diagnostics) fun _ _ => True := by
  induction tags generalizing done s with
  | nil => cases htag
  | cons tag tags ih =>
      rw [List.foldlM_cons]
      rcases List.mem_cons.mp htag with rfl | htag
      · refine Ends.step (resolveInclude_of_barred hfind hbarred done s) ?_
        refine (includes_keep tags _ s).imp (fun _ _ h => h ?_) fun _ _ h => h
        exact List.mem_append_right _ List.mem_cons_self
      · exact (resolveInclude_keeps done tag s).bind fun done' s' _ => ih htag done' s'

end

section

variable {compile : List Path → Path → CompileM Outcome} {unit : SourceUnit} {stack : List Path}
  {delimiters : Delimiters} {parsed : Parsed} {path : String} {span : Span} {found : Path}
  {problem : IncludeProblem}

theorem mem_leadBack_of_mem {diagnostics : List Diagnostic} {message : String}
    (h : ⟨message, span, [], .error⟩ ∈ diagnostics) :
    ⟨message, span, unit.origin.toList, .error⟩ ∈ leadBack unit diagnostics := by
  unfold leadBack
  split
  · next horigin =>
      rw [horigin]
      exact h
  · next site horigin =>
      rw [horigin]
      exact List.mem_map_of_mem (f := (·.through site)) h

theorem run_of_barred (hreads : Reads c unit delimiters parsed) (hnil : parsed.complaints = [])
    (htag : (path, span) ∈ includeTags parsed.template)
    (hfind : c.config.findTemplate fs path unit.path = .ok (some found))
    (hbarred : Barred c (stack ++ unit.path.toList) (fs.resolve found) path problem) (s : State) :
    Ends (run c fs compile unit stack) s
      (fun o _ => o.compilation.program = none ∧
        ⟨problem.message, span, unit.origin.toList, .error⟩ ∈ o.compilation.diagnostics)
      fun _ _ => True := by
  have hdelimiters : liftConfig (c.config.delimiters c.syntaxName) s = .ok delimiters s := by
    rw [hreads.configured]
    rfl
  rw [run]
  refine Ends.step hdelimiters ?_
  dsimp only
  rw [hreads.parses]
  dsimp only
  rw [if_pos (List.isEmpty_iff.mpr hnil), runParsed_eq]
  refine (shadowings_ends _ s).bind fun _ s₁ _ => ?_
  refine (includes_of_barred hfind hbarred htag _ s₁).bind fun done s₂ hdone => ?_
  dsimp only
  rw [if_neg fun h => List.ne_nil_of_mem hdone (List.isEmpty_iff.mp h)]
  refine (finish_ends unit none done.diagnostics done.sources s₂).bind ?_
  rintro comp s₃ ⟨-, -, hprogram, hdiagnostics, -⟩
  refine Ends.pure ⟨hprogram, ?_⟩
  rw [hdiagnostics]
  exact mem_leadBack_of_mem hdone

end

/-! ## Every request -/

section

variable {m₀ m : Memory} {unit : SourceUnit} {delimiters : Delimiters} {parsed : Parsed}
  {path : String} {span : Span} {found : Path} {problem : IncludeProblem}

/-- The share of a tag that is barred by the unit alone comes from the stack. It is the problem
itself if there is nothing else on the stack. -/
theorem Fits.of_barred {stack : List Path} {share : Share}
    (hfind : c.config.findTemplate fs path unit.path = .ok (some found))
    (hbarred : Barred c unit.path.toList (fs.resolve found) path problem)
    (h : Fits c fs m₀ m unit (stack ++ unit.path.toList) (path, span) share) :
    share.contextual ∧ (stack = [] → share = .refused problem) := by
  have hopen : fs.resolve found ∉ stack ++ unit.path.toList →
      ¬ (stack ++ unit.path.toList).length < c.maxIncludeDepth := by
    intro hnew hroom
    rw [List.length_append] at hroom
    cases hbarred with
    | circular hstack => exact hnew (List.mem_append_right _ hstack)
    | tooDeep _ hdepth => omega
  cases h with
  | missing hnone => cases hfind.symm.trans hnone
  | circular hsome hstack =>
      obtain rfl := Option.some.inj (Except.ok.inj (hfind.symm.trans hsome))
      refine ⟨rfl, ?_⟩
      rintro rfl
      cases hbarred with
      | circular => rfl
      | tooDeep hnew _ => exact absurd hstack hnew
  | tooDeep hsome hnew _ =>
      obtain rfl := Option.some.inj (Except.ok.inj (hfind.symm.trans hsome))
      refine ⟨rfl, fun _ => ?_⟩
      cases hbarred with
      | circular hstack => exact absurd (List.mem_append_right _ hstack) hnew
      | tooDeep => rfl
  | unreadable hsome hnew hroom _ | reached hsome hnew hroom _ =>
      obtain rfl := Option.some.inj (Except.ok.inj (hfind.symm.trans hsome))
      exact absurd hroom (hopen hnew)

/-- A barred tag shows in the account of its unit, which was made for this request: an outcome that
is remembered has no share that comes from a stack. -/
theorem Built.of_barred {from' : List Path} {o : Outcome} (h : Built c fs m₀ m from' o)
    (hfrom : o.contextual = true → from' = [])
    (hreads : Reads c o.compilation.unit delimiters parsed) (hnil : parsed.complaints = [])
    (htag : (path, span) ∈ includeTags parsed.template)
    (hfind : c.config.findTemplate fs path o.compilation.unit.path = .ok (some found))
    (hbarred : Barred c o.compilation.unit.path.toList (fs.resolve found) path problem) :
    o.compilation.program = none ∧
      ⟨problem.message, span, o.compilation.unit.origin.toList, .error⟩ ∈
        o.compilation.diagnostics := by
  cases h with
  | broken hreads' hne _ _ _ =>
      obtain ⟨-, rfl⟩ := hreads.unique hreads'
      exact absurd hnil hne
  | @clean _ comp _ _ entries h _ =>
      obtain ⟨-, rfl⟩ := hreads.unique h.reads
      rw [← h.tags] at htag
      obtain ⟨⟨tag, share⟩, hentry, rfl⟩ := List.mem_map.mp htag
      obtain ⟨hcontextual, hshare⟩ := (h.fits _ hentry).of_barred hfind hbarred
      obtain rfl := hshare (hfrom (List.any_eq_true.mpr ⟨_, hentry, hcontextual⟩))
      have hmem : ⟨problem.message, span, [], .error⟩ ∈
          (entries.foldl Included.add (Included.ofUnit comp.unit parsed.template)).diagnostics := by
        rw [Included.diagnostics_foldl]
        exact List.mem_append_right _ (List.mem_flatMap.mpr ⟨_, hentry, List.mem_cons_self⟩)
      refine ⟨?_, ?_⟩
      · cases hprogram : comp.program with
        | none => rfl
        | some program =>
            exact absurd (h.ends.decided program hprogram).1 (List.ne_nil_of_mem hmem)
      · rw [h.ends.diagnostics]
        exact mem_leadBack_of_mem hmem

end

/-- What a request returns was made from an empty stack or does not depend on one. -/
theorem perform_ends (r : Request) {s : State} (hs : Accounted c fs s.memo) :
    Ends (r.perform c fs) s
      (fun comp s' => ∃ o from', o.compilation = comp ∧ (o.contextual = true → from' = []) ∧
        Built c fs s.memo s'.memo from' o)
      fun _ _ => True := by
  cases r with
  | file path =>
      refine (compileFile_ends path hs Memory.Kept.refl).imp ?_ fun _ _ _ => trivial
      rintro comp s' ⟨-, o, from', hcomp, harrives, hbuilt⟩
      exact ⟨o, from', hcomp, harrives.here, hbuilt⟩
  | source text name origin path =>
      refine (compileSource_ends text name origin path hs Memory.Kept.refl).imp ?_ ?_
      · rintro comp s' ⟨-, -, hmade⟩
        exact hmade
      · exact fun _ _ _ => trivial

/-- Includes end, whichever files include each other and however deep they may go. -/
structure BoundedIncludes (c : Compiler) (fs : FileSystem) : Prop where
  /-- Whatever was asked before, a request never ends because the fuel for includes is used up. -/
  ends : ∀ (history : List Request) (r : Request),
    Ends (r.perform c fs) (State.after c fs history) (fun _ _ => True)
      fun fault _ => fault ≠ .outOfFuel
  /-- Every call is within the bounds, as it makes no difference that this is checked. More fuel
  does not make one either. -/
  checked : ∀ (r : Request) (fuel : Nat), c.includeFuel ≤ fuel →
    r.performChecked c fs fuel = r.perform c fs
  /-- A file that is on the stack twice, a stack that is too long and units nested too deeply: each
  would take an include that is barred. -/
  barred : ∀ (nesting : Nat) (stack : List Path) (place : Path) (path : String),
    c.Within nesting stack → ¬ c.Within (nesting + 1) (stack ++ [place]) →
      ∃ problem, Barred c stack place path problem
  /-- Instead of the call there is a diagnostic on the span of the tag. -/
  refused : ∀ (compile : Path → CompileM Outcome) (unit : SourceUnit) (stack : List Path)
    (path : String) (span : Span) (found : Path) (problem : IncludeProblem),
    c.config.findTemplate fs path unit.path = .ok (some found) →
    Barred c stack (fs.resolve found) path problem →
    ∀ (done : Included) (s : State), resolveInclude c fs compile unit stack done (path, span) s =
      .ok { done.refuse span problem with contextual := true } s
  /-- It is one of the diagnostics that the unit ends with, and the unit has no program. -/
  reported : ∀ (compile : List Path → Path → CompileM Outcome) (unit : SourceUnit)
    (stack : List Path) (delimiters : Delimiters) (parsed : Parsed),
    Reads c unit delimiters parsed → parsed.complaints = [] →
    ∀ (path : String) (span : Span) (found : Path) (problem : IncludeProblem),
    (path, span) ∈ includeTags parsed.template →
    c.config.findTemplate fs path unit.path = .ok (some found) →
    Barred c (stack ++ unit.path.toList) (fs.resolve found) path problem →
    ∀ s, Ends (run c fs compile unit stack) s
      (fun o _ => o.compilation.program = none ∧
        ⟨problem.message, span, unit.origin.toList, .error⟩ ∈ o.compilation.diagnostics)
      fun _ _ => True
  /-- So it is in what a request returns, if the tag stands in the unit that was asked for. -/
  requested : ∀ (history : List Request) (r : Request),
    Ends (r.perform c fs) (State.after c fs history)
      (fun comp _ => ∀ (delimiters : Delimiters) (parsed : Parsed),
        Reads c comp.unit delimiters parsed → parsed.complaints = [] →
        ∀ (path : String) (span : Span) (found : Path) (problem : IncludeProblem),
        (path, span) ∈ includeTags parsed.template →
        c.config.findTemplate fs path comp.unit.path = .ok (some found) →
        Barred c comp.unit.path.toList (fs.resolve found) path problem →
        comp.program = none ∧
          ⟨problem.message, span, comp.unit.origin.toList, .error⟩ ∈ comp.diagnostics)
      fun _ _ => True

theorem includes_bounded (c : Compiler) (fs : FileSystem) : BoundedIncludes c fs where
  ends history r := by
    have hends := Keeps.perform c fs r _ (State.settled_after c fs history)
    refine hends.imp (fun _ _ _ => trivial) ?_
    rintro _ _ ⟨-, houtside⟩ rfl
    exact houtside
  checked r _ hfuel := performChecked_eq hfuel r
  barred _ _ _ path hwithin hbreaks := hwithin.barred hbreaks path
  refused _ _ _ _ _ _ _ hfind hbarred := resolveInclude_of_barred hfind hbarred
  reported _ _ _ _ _ hreads hnil _ _ _ _ htag hfind hbarred :=
    run_of_barred hreads hnil htag hfind hbarred
  requested history r := by
    refine (perform_ends r (State.accounted_after c fs history)).imp ?_ fun _ _ h => h
    rintro _ s' ⟨o, from', rfl, hfrom, hbuilt⟩
    intro delimiters parsed hreads hnil path span found problem htag hfind hbarred
    exact hbuilt.of_barred hfrom hreads hnil htag hfind hbarred

end Compiler

end TemplateCompiler
