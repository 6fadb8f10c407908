import TemplateCompiler.Proofs.Agreement

/-!
# Each template is compiled once

The work of a compiler on its files is a list of moments, in order: it begins to compile a file, it
finishes one, it takes one from its memory, or it refuses an include tag because of the stack. Each
moment says what is remembered then.

A file on the stack is not remembered, and it is not compiled once more from there. So nothing is
remembered for a file when it is finished, and its result is remembered, unless the stack was in the
way of something below it. From then on the file is only taken from the memory, or refused where the
stack is too long: the depth limit is looked at first.
-/

namespace TemplateCompiler

/-- Does the event tell that a unit is compiled or taken from the memory? -/
def Event.isOfUnit : Event → Bool
  | .compiling _ | .reusing _ => true
  | .includes _ _ | .shadows _ | .compiled _ | .starting _ _ => false

namespace Compiler

/-! ## Moments -/

/-- What a compiler does about a file. -/
inductive Act where
  /-- It begins to compile the file, under this name. -/
  | begins (name : String)
  | finishes (o : Outcome)
  /-- It takes the compilation from the memory. -/
  | reuses (name : String) (comp : Compilation)
  /-- It does not follow an include tag that leads to the file. -/
  | refuses (problem : IncludeProblem)

namespace Act

/-- The compilation that the file comes out with. -/
def result? : Act → Option Compilation
  | .finishes o => some o.compilation
  | .reuses _ comp => some comp
  | .begins _ | .refuses _ => none

/-- What is told of the act. -/
def event? : Act → Option Event
  | .begins name => some (.compiling name)
  | .reuses name _ => some (.reusing name)
  | .finishes _ | .refuses _ => none

end Act

structure Moment where
  place : Path
  act : Act
  /-- What is remembered up to then. -/
  memory : Memory

/-- What is remembered from then on. -/
def Moment.after (x : Moment) : Memory :=
  match x.act with
  | .finishes ⟨comp, false⟩ => x.memory ++ [(.file x.place, comp)]
  | _ => x.memory

/-- More is told, and nothing else happens. -/
def State.told (s : State) (events : List Event) : State :=
  { s with events := s.events ++ events }

/-- What is told of units, in order. -/
def State.log (s : State) : List Event :=
  s.events.filter Event.isOfUnit

section

variable (c : Compiler) (fs : FileSystem)

/-- What happens at an include tag. `below` are the moments of a file that is compiled from the
stack. -/
def tagMoments (below : Path → State → List Moment) (unit : SourceUnit) (stack : List Path)
    (tag : String × Span) (s : State) : List Moment :=
  match c.config.findTemplate fs tag.1 unit.path with
  | .ok (some found) =>
    if stack.contains (fs.resolve found) then
      [⟨fs.resolve found, .refuses (.circular tag.1), s.memo⟩]
    else if c.maxIncludeDepth ≤ stack.length then
      [⟨fs.resolve found, .refuses (.tooDeep c.maxIncludeDepth), s.memo⟩]
    else below found (s.told [.includes unit.name found.toString])
  | _ => []

/-- What happens at include tags, up to one that ends in a fault. -/
def includeMoments (compile : Path → CompileM Outcome) (below : Path → State → List Moment)
    (unit : SourceUnit) (stack : List Path) :
    List (String × Span) → Included → State → List Moment
  | [], _, _ => []
  | tag :: tags, done, s =>
    tagMoments c fs below unit stack tag s ++
      match resolveInclude c fs compile unit stack done tag s with
      | .ok done' s' => includeMoments compile below unit stack tags done' s'
      | .error _ _ => []

/-- What happens between the beginning of a unit and its end. -/
def runMoments (compile : List Path → Path → CompileM Outcome)
    (below : List Path → Path → State → List Moment) (unit : SourceUnit) (stack : List Path)
    (s : State) : List Moment :=
  match c.config.delimiters c.syntaxName with
  | .error _ => []
  | .ok delimiters =>
    match parse ⟨unit.name, c.whitespace.getD c.config.whitespace⟩ delimiters unit.text with
    | .error _ => []
    | .ok parsed =>
      if parsed.complaints.isEmpty then
        let t := parsed.template
        let inner := stack ++ unit.path.toList
        includeMoments c fs (compile inner) (below inner) unit inner (includeTags t)
          (Included.ofUnit unit t) (s.told (t.macroTable.2.map .shadows))
      else []

/-- The moments of a unit that is not remembered, from the beginning to the end. -/
def unitMoments (compile : List Path → Path → CompileM Outcome)
    (below : List Path → Path → State → List Moment) (unit : SourceUnit) (place : Path)
    (stack : List Path) (s : State) : List Moment :=
  let begun := s.told [.compiling unit.name]
  ⟨place, .begins unit.name, s.memo⟩ ::
    (runMoments c fs compile below unit stack begun ++
      match run c fs compile unit stack begun with
      | .ok o s' => [⟨place, .finishes o, s'.memo⟩]
      | .error _ _ => [])

/-- The moments of a file that is compiled from a stack. -/
def moments : Nat → List Path → Path → State → List Moment
  | 0, _, _, _ => []
  | fuel + 1, stack, path, s =>
    match fs.locate path with
    | .error _ => []
    | .ok place =>
      match s.memo.lookup (.file place) with
      | some earlier => [⟨place, .reuses path.toString earlier, s.memo⟩]
      | none =>
        match fs.readText path with
        | .error _ => []
        | .ok text =>
          unitMoments c fs (compilePath c fs fuel) (moments fuel)
            { name := path.toString, text, path := some place } place stack s

/-- All moments of a compiler that is asked for files, one after the other. -/
def chronicle : List Path → State → List Moment
  | [], _ => []
  | path :: paths, s =>
    moments c fs c.includeFuel [] path s ++ chronicle paths (s.next c fs (.file path))

end

/-! ## Results that the stack went into -/

/-- A diagnostic of the compilation says that a file is on the stack already, or that the stack is
too long, and it leads there from an include tag of the unit. -/
structure MeetsStack (c : Compiler) (comp : Compilation) (d : Diagnostic) : Prop where
  mem : d ∈ comp.diagnostics
  message : ∃ problem : IncludeProblem, d.message = problem.message ∧
    ((∃ path, problem = .circular path) ∨ problem = .tooDeep c.maxIncludeDepth)
  through : ∃ delimiters parsed tag, Reads c comp.unit delimiters parsed ∧
    tag ∈ includeTags parsed.template ∧ d.sites.getLast? = some tag.2

/-- Neither the stack nor its limit was in the way of anything below the unit. -/
def Unhindered (c : Compiler) (comp : Compilation) : Prop :=
  ∀ d, ¬ MeetsStack c comp d

theorem Unhindered.of_ok {c : Compiler} {comp : Compilation} (h : comp.ok = true) :
    Unhindered c comp := by
  intro d hd
  have hnil : comp.diagnostics = [] := List.isEmpty_iff.mp h
  exact absurd (hnil ▸ hd.mem) List.not_mem_nil

variable {c : Compiler} {fs : FileSystem} {m₀ m : Memory} {stack : List Path} {place : Path}
  {unit : SourceUnit} {o : Outcome} {s s' s'' : State}

/-- An outcome that depends on the stack says so, at the tags through which it was reached. -/
theorem Built.exists_meetsStack (h : Built c fs m₀ m stack o) (hcontextual : o.contextual = true)
    (hunit : FileUnit fs o.compilation.unit place) : ∃ d, MeetsStack c o.compilation d := by
  induction h generalizing place with
  | broken => cases hcontextual
  | @clean stack comp delimiters parsed entries h hshares ih =>
      obtain ⟨⟨tag, share⟩, hentry, hflag⟩ := List.any_eq_true.mp hcontextual
      have htag : tag ∈ includeTags parsed.template :=
        h.tags ▸ List.mem_map_of_mem (f := Prod.fst) hentry
      have hmem : ∀ d ∈ share.diagnostics tag.2, d ∈ comp.diagnostics :=
        fun d hd => h.mem_diagnostics hunit hentry hd
      have hfits := h.fits _ hentry
      cases hfits with
      | missing => cases hflag
      | unreadable => cases hflag
      | @circular path span =>
          refine ⟨⟨_, span, [], .error⟩, hmem _ (List.mem_singleton_self _), ?_, ?_⟩
          · exact ⟨.circular path, rfl, .inl ⟨path, rfl⟩⟩
          · exact ⟨delimiters, parsed, _, h.reads, htag, rfl⟩
      | @tooDeep path span =>
          refine ⟨⟨_, span, [], .error⟩, hmem _ (List.mem_singleton_self _), ?_, ?_⟩
          · exact ⟨.tooDeep c.maxIncludeDepth, rfl, .inr rfl⟩
          · exact ⟨delimiters, parsed, _, h.reads, htag, rfl⟩
      | @reached path span found from' o _ _ _ ha =>
          have hbuilt := hshares _ hentry from' o rfl
          obtain ⟨d, hd⟩ := ih _ hentry from' o rfl hflag ha.unit
          refine ⟨d.through span, hmem _ ?_, hd.message, ?_⟩
          · rw [hbuilt.diagnostics_reached]
            exact List.mem_map_of_mem hd.mem
          · refine ⟨delimiters, parsed, _, h.reads, htag, ?_⟩
            rw [Diagnostic.sites, Diagnostic.through, ← List.cons_append]
            exact List.getLast?_concat

/-! ## Records -/

/-- What the memory of a moment has to do with its act. -/
inductive Moment.Holds (c : Compiler) : Moment → Prop
  | begins {place : Path} {name : String} {m : Memory} (hnew : m.lookup (.file place) = none) :
      Holds c ⟨place, .begins name, m⟩
  | finishes {place : Path} {o : Outcome} {m : Memory} (hnew : m.lookup (.file place) = none)
      (hmeets : o.contextual = true → ∃ d, MeetsStack c o.compilation d) :
      Holds c ⟨place, .finishes o, m⟩
  | reuses {place : Path} {name : String} {comp : Compilation} {m : Memory}
      (hold : m.lookup (.file place) = some comp) : Holds c ⟨place, .reuses name comp, m⟩
  | circular {place : Path} {path : String} {m : Memory} (hnew : m.lookup (.file place) = none) :
      Holds c ⟨place, .refuses (.circular path), m⟩
  | tooDeep {place : Path} {m : Memory} :
      Holds c ⟨place, .refuses (.tooDeep c.maxIncludeDepth), m⟩

theorem Memory.Kept.append (m m' : Memory) : m.Kept (m ++ m') :=
  fun key comp hlookup => by rw [List.lookup_append, hlookup, Option.some_or]

theorem Moment.kept (x : Moment) : x.memory.Kept x.after := by
  unfold Moment.after
  split
  · exact .append _ _
  · exact .refl

/-- What happens between two states: the memory only grows, and the log tells of the moments. -/
structure Recorded (c : Compiler) (s : State) (xs : List Moment) (s' : State) : Prop where
  kept : Memory.Kept s.memo s'.memo
  holds : ∀ x ∈ xs, Moment.Holds c x
  inside : ∀ x ∈ xs, Memory.Kept s.memo x.memory ∧ x.after.Kept s'.memo
  ordered : xs.Pairwise fun x y => x.after.Kept y.memory
  logged : s'.log = s.log ++ xs.filterMap (·.act.event?)

namespace Recorded

variable {xs ys : List Moment}

theorem quiet (hmemo : s'.memo = s.memo) (hlog : s'.log = s.log) : Recorded c s [] s' where
  kept := hmemo ▸ .refl
  holds := nofun
  inside := nofun
  ordered := .nil
  logged := by rw [hlog, List.filterMap_nil, List.append_nil]

theorem refl : Recorded c s [] s :=
  quiet rfl rfl

theorem append (h : Recorded c s xs s') (h' : Recorded c s' ys s'') :
    Recorded c s (xs ++ ys) s'' where
  kept := h.kept.trans h'.kept
  holds := List.forall_mem_append.mpr ⟨h.holds, h'.holds⟩
  inside := by
    refine List.forall_mem_append.mpr ⟨fun x hx => ?_, fun y hy => ?_⟩
    · exact ⟨(h.inside x hx).1, (h.inside x hx).2.trans h'.kept⟩
    · exact ⟨h.kept.trans (h'.inside y hy).1, (h'.inside y hy).2⟩
  ordered := List.pairwise_append.mpr ⟨h.ordered, h'.ordered,
    fun x hx y hy => (h.inside x hx).2.trans (h'.inside y hy).1⟩
  logged := by rw [h'.logged, h.logged, List.filterMap_append, List.append_assoc]

theorem single {x : Moment} (hx : Moment.Holds c x) (hmemory : x.memory = s.memo)
    (hafter : s'.memo = x.after) (hlog : s'.log = s.log ++ x.act.event?.toList) :
    Recorded c s [x] s' where
  kept := hafter ▸ hmemory ▸ x.kept
  holds := List.forall_mem_singleton.mpr hx
  inside := List.forall_mem_singleton.mpr ⟨hmemory ▸ .refl, hafter ▸ .refl⟩
  ordered := List.pairwise_singleton _ _
  logged := by
    rw [hlog, List.filterMap_cons]
    cases x.act.event? <;> rfl

end Recorded

/-! ## Files on the stack -/

/-- No file on the stack is remembered. -/
def Unremembered (stack : List Path) (m : Memory) : Prop :=
  ∀ place ∈ stack, m.lookup (.file place) = none

theorem Unremembered.nil : Unremembered [] m :=
  fun _ hplace => absurd hplace List.not_mem_nil

/-- A file that is not on the stack can be remembered. -/
theorem Unremembered.add (h : Unremembered stack m) (hplace : place ∉ stack) (comp : Compilation) :
    Unremembered stack (m ++ [(.file place, comp)]) := by
  intro other hother
  rw [List.lookup_append, h other hother, Option.none_or, List.lookup_cons,
    beq_eq_false_iff_ne.mpr, List.lookup_nil]
  rintro ⟨⟩
  exact hplace hother

/-- What happens is recorded, and the files on the stack stay unremembered. -/
def Leaves (c : Compiler) (stack : List Path) (s : State) (xs : List Moment) (s' : State) : Prop :=
  Recorded c s xs s' ∧ Unremembered stack s'.memo

/-- The last of the moments is that of a result for the file. -/
def Gave (xs : List Moment) (place : Path) (comp : Compilation) : Prop :=
  ∃ x, xs.getLast? = some x ∧ x.place = place ∧ x.act.result? = some comp

/-- What happens when files are compiled from a stack. -/
def Records (c : Compiler) (fs : FileSystem) (stack : List Path) (compile : Path → CompileM Outcome)
    (below : Path → State → List Moment) : Prop :=
  ∀ (path : Path) (s : State), Accounted c fs s.memo → Unremembered stack s.memo →
    fs.resolve path ∉ stack →
      Ends (compile path) s
        (fun o s' => Leaves c stack s (below path s) s' ∧
          Gave (below path s) (fs.resolve path) o.compilation)
        fun _ s' => Leaves c stack s (below path s) s'

/-! ## Single steps -/

theorem State.log_told (s : State) (events : List Event) :
    (s.told events).log = s.log ++ events.filter Event.isOfUnit :=
  List.filter_append _ _

theorem tell_apply (e : Event) (s : State) : tell e s = .ok () (s.told [e]) :=
  rfl

theorem shadowings_apply (shadowings : List Shadowing) (s : State) :
    (shadowings.forM fun shadowing => tell (.shadows shadowing)) s =
      .ok () (s.told (shadowings.map .shadows)) := by
  induction shadowings generalizing s with
  | nil =>
      rw [State.told, List.map_nil, List.append_nil]
      rfl
  | cons shadowing shadowings ih =>
      rw [List.forM, bind_apply_of_ok (tell_apply _ s), ih]
      simp only [State.told, List.map_cons, List.append_assoc, List.singleton_append]

/-- Shadowings are not told of units. -/
theorem State.log_shadows (s : State) (shadowings : List Shadowing) :
    (s.told (shadowings.map .shadows)).log = s.log := by
  have hnone : (shadowings.map Event.shadows).filter Event.isOfUnit = [] := by
    rw [List.filter_map, List.map_eq_nil_iff]
    exact List.filter_eq_nil_iff.mpr fun _ _ => Bool.false_ne_true
  rw [State.log_told, hnone, List.append_nil]

/-- What is known of the state wherever work ends is known if it ends because of a file. -/
theorem readable_leaves {α : Type} {work : CompileM α} {R : State → Prop}
    (h : Ends work s (fun _ s' => R s') fun _ s' => R s') :
    Ends (readable work) s (fun _ s' => R s') fun _ s' => R s' := by
  refine Ends.tryCatch (h.map fun _ _ h => h) ?_
  intro fault s' h
  cases fault with
  | unreadable => exact Ends.pure h
  | _ => exact Ends.throw h

section

variable {compile : Path → CompileM Outcome} {below : Path → State → List Moment}

/-- One include tag. -/
theorem resolveInclude_leaves (hrecords : Records c fs stack compile below) (unit : SourceUnit)
    (done : Included) (tag : String × Span) (hs : Accounted c fs s.memo)
    (hstack : Unremembered stack s.memo) :
    Ends (resolveInclude c fs compile unit stack done tag) s
      (fun _ s' => Leaves c stack s (tagMoments c fs below unit stack tag s) s')
      fun _ s' => Leaves c stack s (tagMoments c fs below unit stack tag s) s' := by
  obtain ⟨path, span⟩ := tag
  rw [resolveInclude, tagMoments]
  refine Ends.bind ((liftRead_ends (c.config.findTemplate fs path unit.path) s).imp
    (fun _ _ h => h) ?_) ?_
  · rintro fault s' ⟨rfl, _, _, hfind, -⟩
    rw [hfind]
    exact ⟨.refl, hstack⟩
  · rintro found s' ⟨rfl, hfind⟩
    rw [hfind]
    cases found with
    | none => exact Ends.pure ⟨.refl, hstack⟩
    | some found =>
        dsimp only
        by_cases hcircular : fs.resolve found ∈ stack
        · rw [if_pos (List.contains_iff_mem.mpr hcircular),
            if_pos (List.contains_iff_mem.mpr hcircular)]
          refine Ends.pure ⟨.single (.circular (hstack _ hcircular)) rfl rfl ?_, hstack⟩
          exact (List.append_nil _).symm
        · have hnot := fun h => hcircular (List.contains_iff_mem.mp h)
          rw [if_neg hnot, if_neg hnot]
          by_cases hdepth : c.maxIncludeDepth ≤ stack.length
          · rw [if_pos hdepth, if_pos hdepth]
            exact Ends.pure ⟨.single .tooDeep rfl rfl (List.append_nil _).symm, hstack⟩
          · rw [if_neg hdepth, if_neg hdepth]
            refine Ends.step (tell_apply _ s') ?_
            have htold : Recorded c s' [] (s'.told [.includes unit.name found.toString]) :=
              .quiet rfl ((State.log_told _ _).trans (List.append_nil _))
            have hends := hrecords found (s'.told [.includes unit.name found.toString]) hs hstack
              hcircular
            refine Ends.bind (P := fun _ s'' => Leaves c stack s'
              (below found (s'.told [.includes unit.name found.toString])) s'') ?_ ?_
            · refine readable_leaves (hends.imp ?_ ?_)
              · exact fun _ _ h => ⟨htold.append h.1.1, h.1.2⟩
              · exact fun _ _ h => ⟨htold.append h.1, h.2⟩
            · intro result s'' h
              cases result with
              | error => exact Ends.pure h
              | ok outcome =>
                  dsimp only
                  cases outcome.compilation.program with
                  | some => exact Ends.pure h
                  | none => exact Ends.pure h

/-- All include tags, in order. -/
theorem includes_leaves (hcompile : Compiles c fs [] stack compile)
    (hrecords : Records c fs stack compile below) (unit : SourceUnit) (tags : List (String × Span))
    (done : Included) (hs : Accounted c fs s.memo) (hstack : Unremembered stack s.memo) :
    Ends (tags.foldlM (resolveInclude c fs compile unit stack) done) s
      (fun _ s' => Leaves c stack s (includeMoments c fs compile below unit stack tags done s) s')
      fun _ s' =>
        Leaves c stack s (includeMoments c fs compile below unit stack tags done s) s' := by
  induction tags generalizing done s with
  | nil => exact Ends.pure ⟨.refl, hstack⟩
  | cons tag tags ih =>
      rw [List.foldlM_cons, includeMoments]
      have haccount := resolveInclude_ends hcompile unit done tag hs .nil
      refine Ends.bind (((resolveInclude_leaves hrecords unit done tag hs hstack).and
        (haccount.and (.self _ s))).imp (fun _ _ h => h) ?_) ?_
      · rintro fault s' ⟨hleaves, -, hrun⟩
        rw [hrun, List.append_nil]
        exact hleaves
      · rintro done' s' ⟨⟨hrecorded, hstack'⟩, ⟨hextends, -⟩, hrun⟩
        rw [hrun]
        refine (ih done' (hextends.accounted hs) hstack').imp ?_ ?_
        · exact fun _ _ h => ⟨hrecorded.append h.1, h.2⟩
        · exact fun _ _ h => ⟨hrecorded.append h.1, h.2⟩

end

/-! ## Units -/

section

variable {compile : List Path → Path → CompileM Outcome}
  {below : List Path → Path → State → List Moment}

theorem runParsed_leaves {inner : List Path} (hinner : stack ++ unit.path.toList = inner)
    (hcompile : Compiles c fs [] inner (compile inner))
    (hrecords : Records c fs inner (compile inner) (below inner)) (t : Template)
    (hs : Accounted c fs s.memo) (hstack : Unremembered inner s.memo) :
    let xs := includeMoments c fs (compile inner) (below inner) unit inner (includeTags t)
      (Included.ofUnit unit t) (s.told (t.macroTable.2.map .shadows))
    Ends (runParsed c fs compile unit stack t) s (fun _ s' => Leaves c inner s xs s')
      fun _ s' => Leaves c inner s xs s' := by
  intro xs
  rw [runParsed_eq]
  refine Ends.step (shadowings_apply _ s) ?_
  have htold : Recorded c s [] (s.told (t.macroTable.2.map .shadows)) :=
    .quiet rfl (State.log_shadows _ _)
  dsimp only
  rw [hinner]
  refine Ends.bind (P := fun _ s' => Leaves c inner s xs s') ?_ ?_
  · refine (includes_leaves (s := s.told (t.macroTable.2.map .shadows)) hcompile hrecords unit
      (includeTags t) _ hs hstack).imp ?_ ?_
    · exact fun _ _ h => ⟨htold.append h.1, h.2⟩
    · exact fun _ _ h => ⟨htold.append h.1, h.2⟩
  · rintro done s' ⟨hrecorded, hstack'⟩
    have hfinish : ∀ program diagnostics, Ends (finish unit program diagnostics done.sources) s'
        (fun _ s'' => Leaves c inner s xs s'') fun _ s'' => Leaves c inner s xs s'' := by
      intro program diagnostics
      refine ⟨?_, hstack'⟩
      have hfinished : Recorded c s' [] { s' with finished := s'.finished + 1 } := .quiet rfl rfl
      have h := hrecorded.append hfinished
      rwa [List.append_nil] at h
    split
    · split
      · exact Ends.bind (hfinish _ _) fun _ _ h => Ends.pure h
      · exact Ends.throw ⟨hrecorded, hstack'⟩
    · exact Ends.bind (hfinish _ _) fun _ _ h => Ends.pure h

theorem run_leaves {inner : List Path} (hinner : stack ++ unit.path.toList = inner)
    (hcompile : Compiles c fs [] inner (compile inner))
    (hrecords : Records c fs inner (compile inner) (below inner))
    (hs : Accounted c fs s.memo) (hstack : Unremembered inner s.memo) :
    Ends (run c fs compile unit stack) s
      (fun _ s' => Leaves c inner s (runMoments c fs compile below unit stack s) s')
      fun _ s' => Leaves c inner s (runMoments c fs compile below unit stack s) s' := by
  rw [run, runMoments]
  cases hdelimiters : c.config.delimiters c.syntaxName with
  | error fault =>
      exact Ends.bind (P := fun _ _ => False) (Ends.throw ⟨.refl, hstack⟩) fun _ _ => False.elim
  | ok delimiters =>
      refine Ends.step rfl ?_
      dsimp only
      cases parse ⟨unit.name, c.whitespace.getD c.config.whitespace⟩ delimiters unit.text with
      | error stop => exact Ends.throw ⟨.refl, hstack⟩
      | ok parsed =>
          dsimp only
          split
          · rw [hinner]
            exact runParsed_leaves hinner hcompile hrecords parsed.template hs hstack
          · refine Ends.bind (P := fun _ s' => Leaves c inner s [] s') ?_ fun _ _ h => Ends.pure h
            exact ⟨.quiet rfl rfl, hstack⟩

theorem remember_apply {key : MemoKey} {comp : Compilation} (h : s.memo.lookup key = none) :
    remember key comp s = .ok comp { s with memo := s.memo ++ [(key, comp)] } := by
  rw [remember, bind_apply_of_ok (remembered_apply key s), h]
  rfl

/-- A file is finished: its result is remembered if it does not depend on the stack. -/
theorem finishes_leaves {xs : List Moment} (h : Leaves c (stack ++ [place]) s xs s')
    (hplace : place ∉ stack)
    (hmeets : o.contextual = true → ∃ d, MeetsStack c o.compilation d) :
    Ends (if o.contextual then return o
        else return ⟨← remember (.file place) o.compilation, false⟩ : CompileM Outcome) s'
      (fun o' s'' => o'.compilation = o.compilation ∧
        Leaves c stack s (xs ++ [⟨place, .finishes o, s'.memo⟩]) s'')
      fun _ _ => False := by
  obtain ⟨hrecorded, hboth⟩ := h
  obtain ⟨hstack, hlast⟩ := List.forall_mem_append.mp hboth
  have hnone := List.forall_mem_singleton.mp hlast
  have hfinishes : Moment.Holds c ⟨place, .finishes o, s'.memo⟩ := .finishes hnone hmeets
  obtain ⟨comp, contextual⟩ := o
  cases contextual with
  | true =>
      refine Ends.pure ⟨rfl, hrecorded.append (.single hfinishes rfl rfl ?_), hstack⟩
      exact (List.append_nil _).symm
  | false =>
      refine Ends.step (remember_apply hnone) (Ends.pure ⟨rfl, ?_, .add hstack hplace comp⟩)
      exact hrecorded.append (.single hfinishes rfl rfl (List.append_nil _).symm)

/-- A file that is not remembered is compiled from the beginning to the end. -/
theorem compileUnit_leaves
    (hcompile : Compiles c fs [] (stack ++ [place]) (compile (stack ++ [place])))
    (hrecords : Records c fs (stack ++ [place]) (compile (stack ++ [place]))
      (below (stack ++ [place])))
    (hunit : FileUnit fs unit place) (hs : Accounted c fs s.memo)
    (hstack : Unremembered stack s.memo) (hplace : place ∉ stack)
    (hnone : s.memo.lookup (.file place) = none) :
    let xs := unitMoments c fs compile below unit place stack s
    Ends (compileUnit c fs compile unit (.file place) stack) s
      (fun o s' => Leaves c stack s xs s' ∧ Gave xs place o.compilation)
      fun _ s' => Leaves c stack s xs s' := by
  intro xs
  have hinner : stack ++ unit.path.toList = stack ++ [place] := by rw [hunit.path]; rfl
  have hboth : Unremembered (stack ++ [place]) s.memo :=
    List.forall_mem_append.mpr ⟨hstack, List.forall_mem_singleton.mpr hnone⟩
  have hbegun : Recorded c s [⟨place, .begins unit.name, s.memo⟩] (s.told [.compiling unit.name]) :=
    .single (.begins hnone) rfl rfl (State.log_told _ _)
  rw [compileUnit]
  refine Ends.step (remembered_apply (.file place) s) ?_
  rw [hnone]
  refine Ends.step (tell_apply _ s) ?_
  have hleaves := run_leaves (s := s.told [.compiling unit.name]) hinner hcompile hrecords hs hboth
  have hends := run_ends (s := s.told [.compiling unit.name]) (hinner.symm ▸ hcompile) hs .nil
  refine Ends.bind ((hleaves.and (hends.and (.self _ _))).imp (fun _ _ h => h) ?_) ?_
  · rintro fault s' ⟨⟨hrecorded, hboth'⟩, -, hrun⟩
    refine ⟨?_, (List.forall_mem_append.mp hboth').1⟩
    have h := hbegun.append hrecorded
    simp only [xs, unitMoments, hrun, List.append_nil]
    exact h
  · rintro o s' ⟨⟨hrecorded, hboth'⟩, ⟨-, rfl, hbuilt⟩, hrun⟩
    have hxs : xs = ⟨place, .begins o.compilation.unit.name, s.memo⟩ ::
        runMoments c fs compile below o.compilation.unit stack
          (s.told [.compiling o.compilation.unit.name]) ++ [⟨place, .finishes o, s'.memo⟩] := by
      simp only [xs, unitMoments, hrun]
      rfl
    rw [hxs]
    refine (finishes_leaves ⟨hbegun.append hrecorded, hboth'⟩ hplace
      fun hcontextual => hbuilt.exists_meetsStack hcontextual hunit).imp ?_ fun _ _ => False.elim
    rintro o' s'' ⟨hcomp, hleaves'⟩
    refine ⟨hleaves', ⟨place, .finishes o, s'.memo⟩, List.getLast?_concat, rfl, ?_⟩
    exact congrArg some hcomp.symm

end

/-! ## Files -/

theorem compilePath_records (fuel : Nat) :
    Records c fs stack (compilePath c fs fuel stack) (moments c fs fuel stack) := by
  induction fuel generalizing stack with
  | zero =>
      intro path s _ hstack _
      exact Ends.throw ⟨.refl, hstack⟩
  | succ fuel ih =>
      intro path s hs hstack hplace
      rw [compilePath, moments, locate]
      cases hlocate : fs.locate path with
      | error fault =>
          exact Ends.bind (P := fun _ _ => False) (Ends.throw ⟨.refl, hstack⟩) fun _ _ => False.elim
      | ok resolved =>
          obtain rfl : resolved = fs.resolve path :=
            resolve_of_locate (congrArg (Except.mapError (path, ·)) hlocate)
          refine Ends.step rfl (Ends.step (remembered_apply (.file (fs.resolve path)) s) ?_)
          dsimp only
          cases hlookup : s.memo.lookup (.file (fs.resolve path)) with
          | some earlier =>
              refine Ends.step (tell_apply _ s) (Ends.pure ⟨⟨?_, hstack⟩, ?_⟩)
              · exact .single (.reuses hlookup) rfl rfl (State.log_told _ _)
              · exact ⟨_, rfl, rfl, rfl⟩
          | none =>
              dsimp only
              cases htext : fs.readText path with
              | error fault => exact Ends.throw ⟨.refl, hstack⟩
              | ok text =>
                  have hunit : FileUnit fs { name := path.toString, text, path := some _ }
                      (fs.resolve path) := ⟨rfl, rfl, path, rfl, rfl, htext⟩
                  exact compileUnit_leaves (compilePath_ends fuel) ih hunit hs hstack hplace hlookup

/-- A file that is remembered is taken from the memory, and nothing else happens. -/
theorem compileFile_of_remembered {path : Path} {comp : Compilation}
    (hlocate : fs.locate path = .ok place) (hlookup : s.memo.lookup (.file place) = some comp) :
    c.compileFile fs path s = .ok comp (s.told [.reusing path.toString]) := by
  have hpath : compilePath c fs c.includeFuel [] path s =
      .ok ⟨comp, false⟩ (s.told [.reusing path.toString]) := by
    have hplace : locate fs path s = .ok place s := by rw [locate, hlocate]; rfl
    rw [includeFuel, compilePath, bind_apply_of_ok hplace,
      bind_apply_of_ok (remembered_apply (.file place) s), hlookup]
    rfl
  rw [compileFile, bind_apply_of_ok hpath]
  rfl

/-! ## Sequences of files -/

theorem compileFile_leaves (path : Path) (hs : Accounted c fs s.memo) :
    let xs := moments c fs c.includeFuel [] path s
    Ends (c.compileFile fs path) s
      (fun comp s' => Recorded c s xs s' ∧ Gave xs (fs.resolve path) comp)
      fun _ s' => Recorded c s xs s' := by
  refine Ends.bind ((compilePath_records c.includeFuel path s hs .nil List.not_mem_nil).imp
    (fun _ _ h => h) fun _ _ h => h.1) ?_
  rintro o s' ⟨⟨hrecorded, -⟩, hgave⟩
  exact Ends.pure ⟨hrecorded, hgave⟩

theorem next_recorded (path : Path) (hs : Accounted c fs s.memo) :
    Recorded c s (moments c fs c.includeFuel [] path s) (s.next c fs (.file path)) := by
  have hends := compileFile_leaves path hs
  unfold State.next
  split
  · next hok => exact (hends.of_ok hok).1
  · next herror => exact hends.of_error herror

theorem chronicle_recorded (paths : List Path) (hs : Accounted c fs s.memo) :
    Recorded c s (chronicle c fs paths s) ((paths.map Request.file).foldl (State.next c fs) s) := by
  induction paths generalizing s with
  | nil => exact .refl
  | cons path paths ih => exact (next_recorded path hs).append (ih (State.accounted_next hs _))

/-! ## One result for each file -/

/-- A result that nothing was in the way of is what is remembered from then on. -/
theorem Moment.Holds.lookup_after {x : Moment} (h : x.Holds c) {comp : Compilation}
    (hresult : x.act.result? = some comp) (hcomp : Unhindered c comp) :
    x.after.lookup (.file x.place) = some comp := by
  cases h with
  | begins => cases hresult
  | circular => cases hresult
  | tooDeep => cases hresult
  | reuses hold =>
      obtain rfl := Option.some.inj hresult
      exact hold
  | @finishes place o m hnew hmeets =>
      obtain rfl := Option.some.inj hresult
      obtain ⟨comp, contextual⟩ := o
      cases contextual with
      | true =>
          obtain ⟨d, hd⟩ := hmeets rfl
          exact absurd hd (hcomp d)
      | false =>
          show (m ++ [(MemoKey.file place, comp)]).lookup (.file place) = some comp
          rw [List.lookup_append, hnew, Option.none_or, List.lookup_cons_self]

/-- What can be done about a file that is remembered. -/
theorem Moment.Holds.of_lookup {x : Moment} (h : x.Holds c) {comp : Compilation}
    (hlookup : x.memory.lookup (.file x.place) = some comp) :
    (∃ name, x.act = .reuses name comp) ∨ x.act = .refuses (.tooDeep c.maxIncludeDepth) := by
  cases h with
  | begins hnew => cases hnew.symm.trans hlookup
  | finishes hnew _ => cases hnew.symm.trans hlookup
  | circular hnew => cases hnew.symm.trans hlookup
  | @reuses _ name _ _ hold =>
      obtain rfl := Option.some.inj (hold.symm.trans hlookup)
      exact .inl ⟨name, rfl⟩
  | tooDeep => exact .inr rfl

/-- What can be relied on when a new compiler is asked for files, one after the other. -/
structure CompiledOnce (c : Compiler) (fs : FileSystem) (paths : List Path) : Prop where
  /-- The log tells of the same beginnings and reuses, in the same order. -/
  logged : (State.after c fs (paths.map .file)).log =
    (chronicle c fs paths {}).filterMap (·.act.event?)
  /-- What a further request gives is the result that its last moment tells of. -/
  returned : ∀ (path : Path) (comp : Compilation) (s : State),
    c.compileFile fs path (State.after c fs (paths.map .file)) = .ok comp s →
      Gave (moments c fs c.includeFuel [] path (State.after c fs (paths.map .file)))
        (fs.resolve path) comp
  /-- No entry of the memory ever changes or disappears. -/
  kept : (chronicle c fs paths {}).Pairwise fun x y =>
    x.after.Kept y.memory ∧ y.memory.Kept y.after
  /-- A result that nothing was in the way of is remembered from then on. -/
  remembered : ∀ x ∈ chronicle c fs paths {}, ∀ comp, x.act.result? = some comp →
    Unhindered c comp → x.after.lookup (.file x.place) = some comp ∧
      (State.after c fs (paths.map .file)).memo.lookup (.file x.place) = some comp
  /-- From then on the file is taken from the memory, and is the very same, or it is met where the
  stack is too long. -/
  reused : (chronicle c fs paths {}).Pairwise fun x y => y.place = x.place →
    ∀ comp, x.act.result? = some comp → Unhindered c comp →
      (∃ name, y.act = .reuses name comp) ∨ y.act = .refuses (.tooDeep c.maxIncludeDepth)
  /-- A file is begun again only if something was in the way of all its earlier results. -/
  again : (chronicle c fs paths {}).Pairwise fun x y => y.place = x.place →
    ∀ comp name, x.act.result? = some comp → y.act = .begins name → ∃ d, MeetsStack c comp d
  /-- Whoever asks for the file then, under any path, gets the result, and nothing is compiled. -/
  answered : ∀ x ∈ chronicle c fs paths {}, ∀ comp, x.act.result? = some comp →
    Unhindered c comp → ∀ path, fs.locate path = .ok x.place →
      c.compileFile fs path (State.after c fs (paths.map .file)) =
        .ok comp ((State.after c fs (paths.map .file)).told [.reusing path.toString])

/-- Each file is compiled until nothing is in the way of its result, and then never again. -/
theorem compiled_once (c : Compiler) (fs : FileSystem) (paths : List Path) :
    CompiledOnce c fs paths := by
  have haccount := State.accounted_after c fs (paths.map .file)
  have hrecorded : Recorded c {} (chronicle c fs paths {}) (State.after c fs (paths.map .file)) :=
    chronicle_recorded paths Accounted.nil
  have hremembered : ∀ x ∈ chronicle c fs paths {}, ∀ comp, x.act.result? = some comp →
      Unhindered c comp → x.after.lookup (.file x.place) = some comp ∧
        (State.after c fs (paths.map .file)).memo.lookup (.file x.place) = some comp := by
    intro x hx comp hresult hcomp
    have hlookup := (hrecorded.holds x hx).lookup_after hresult hcomp
    exact ⟨hlookup, (hrecorded.inside x hx).2 _ _ hlookup⟩
  have hreused : (chronicle c fs paths {}).Pairwise fun x y => y.place = x.place →
      ∀ comp, x.act.result? = some comp → Unhindered c comp →
        (∃ name, y.act = .reuses name comp) ∨ y.act = .refuses (.tooDeep c.maxIncludeDepth) := by
    refine hrecorded.ordered.imp_of_mem ?_
    intro x y hx hy hkept hplace comp hresult hcomp
    have hlookup := (hrecorded.holds x hx).lookup_after hresult hcomp
    exact (hrecorded.holds y hy).of_lookup (hplace ▸ hkept _ _ hlookup)
  refine ⟨?_, ?_, ?_, hremembered, hreused, ?_, ?_⟩
  · exact hrecorded.logged
  · exact fun path comp s hrun => ((compileFile_leaves path haccount).of_ok hrun).2
  · exact hrecorded.ordered.imp fun hkept => ⟨hkept, Moment.kept _⟩
  · refine hreused.imp ?_
    intro x y hreused hplace comp name hresult hbegins
    by_contra hnone
    rcases hreused hplace comp hresult fun d hd => hnone ⟨d, hd⟩ with ⟨_, hreuses⟩ | hrefuses
    · cases hbegins.symm.trans hreuses
    · cases hbegins.symm.trans hrefuses
  · intro x hx comp hresult hcomp path hlocate
    exact compileFile_of_remembered hlocate (hremembered x hx comp hresult hcomp).2

/-- The chain behind `a` is too long until `b` is remembered. So both are compiled twice, and then
never again. -/
example :
    let fs : FileSystem :=
      ⟨["site"], [(["site"], .directory),
        (["site", "a"], .file "\x7b% include 'b' %\x7d".toUTF8.toList),
        (["site", "b"], .file "\x7b% include 'c' %\x7d".toUTF8.toList),
        (["site", "c"], .file "end".toUTF8.toList)]⟩
    let c : Compiler := ⟨.withDirs [], none, none, 2⟩
    let paths : List Path := [.ofString "a", .ofString "b", .ofString "a", .ofString "a"]
    (State.after c fs (paths.map .file)).log.map (·.message) =
      ["compiling a", "compiling /site/b", "compiling b", "compiling /site/c", "compiling a",
        "reusing compilation of /site/b", "reusing compilation of a"] := by
  decide +kernel

/-- A file that was compiled without diagnostics is refused, not reused, where an include of it
meets the depth limit. -/
theorem refused_after_success :
    let fs : FileSystem :=
      ⟨["site"], [(["site"], .directory),
        (["site", "a"], .file "\x7b% include 'b' %\x7d".toUTF8.toList),
        (["site", "b"], .file "x".toUTF8.toList)]⟩
    let c : Compiler := ⟨.withDirs [], none, none, 1⟩
    ¬ (chronicle c fs [.ofString "b", .ofString "a"] {}).Pairwise fun x y => y.place = x.place →
      ∀ comp, x.act.result? = some comp → Unhindered c comp →
        ∃ name, y.act = .reuses name comp := by
  intro fs c hreused
  have hfinished : (chronicle c fs [.ofString "b", .ofString "a"] {})[1]?.map
      (fun x => (x.place, x.act.result?.map (·.ok))) =
        some (⟨.absolute, ["site", "b"]⟩, some true) := by decide +kernel
  have hrefused : (chronicle c fs [.ofString "b", .ofString "a"] {})[3]?.map
      (fun x => (x.place, x.act.result?.isSome)) =
        some (⟨.absolute, ["site", "b"]⟩, false) := by decide +kernel
  obtain ⟨x, hx, hx'⟩ := Option.map_eq_some_iff.mp hfinished
  obtain ⟨y, hy, hy'⟩ := Option.map_eq_some_iff.mp hrefused
  obtain ⟨hxplace, hxresult⟩ := Prod.mk.inj hx'
  obtain ⟨hyplace, hyresult⟩ := Prod.mk.inj hy'
  obtain ⟨comp, hcomp, hok⟩ := Option.map_eq_some_iff.mp hxresult
  obtain ⟨hxlt, rfl⟩ := List.getElem?_eq_some_iff.mp hx
  obtain ⟨hylt, rfl⟩ := List.getElem?_eq_some_iff.mp hy
  obtain ⟨name, hreuses⟩ := List.pairwise_iff_getElem.mp hreused 1 3 hxlt hylt (by decide)
    (hyplace.trans hxplace.symm) comp hcomp (.of_ok hok)
  rw [hreuses] at hyresult
  cases hyresult

end Compiler

end TemplateCompiler
