import TemplateCompiler.Proofs.Accounts

/-!
# Compilers account for what they make

Each step of a compiler extends the memory, and what it gives has an account in the memory that it
leaves behind. The steps are followed from the include tag outwards, and files by induction on the
fuel, as a file that is included is compiled with less of it.
-/

namespace TemplateCompiler

namespace Compiler

variable {c : Compiler} {fs : FileSystem} {m₀ : Memory} {stack : List Path} {unit : SourceUnit}

/-- What a compiler makes of a file from a stack is accounted for, whatever it has remembered since
the memory `m₀`. -/
def Compiles (c : Compiler) (fs : FileSystem) (m₀ : Memory) (stack : List Path)
    (compile : Path → CompileM Outcome) : Prop :=
  ∀ (path : Path) (s : State), Accounted c fs s.memo → m₀.Kept s.memo →
    Ends (compile path) s
      (fun o s' => Extends c fs stack s.memo s'.memo ∧
        ∃ from', Arrives fs m₀ s'.memo stack (fs.resolve path) from' o ∧
          Built c fs m₀ s'.memo from' o)
      fun fault s' => Extends c fs stack s.memo s'.memo ∧
        ∀ file reason, fault = .unreadable file reason → Unreadable c fs path file reason

/-! ## Single steps -/

theorem liftRead_ends {α : Type} (x : Except (Path × ReadFault) α) (s : State) :
    Ends (liftRead x) s (fun a s' => s' = s ∧ x = .ok a) fun fault s' => s' = s ∧
      ∃ file reason, x = .error (file, reason) ∧ fault = .unreadable file reason := by
  cases x with
  | ok a => exact Ends.pure ⟨rfl, rfl⟩
  | error f => exact Ends.throw ⟨rfl, f.1, f.2, rfl, rfl⟩

theorem liftConfig_ends {α : Type} (x : Except ConfigFault α) (s : State) :
    Ends (liftConfig x) s (fun a s' => s' = s ∧ x = .ok a) fun fault s' => s' = s ∧
      (∀ a, x ≠ .ok a) ∧ ∀ file reason, fault ≠ .unreadable file reason := by
  cases x with
  | ok a => exact Ends.pure ⟨rfl, rfl⟩
  | error f => exact Ends.throw ⟨rfl, nofun, nofun⟩

theorem tell_ends {E : CompileFault → State → Prop} (e : Event) (s : State) :
    Ends (tell e) s (fun _ s' => s'.memo = s.memo) E :=
  (rfl : s.memo = s.memo)

theorem shadowings_ends {E : CompileFault → State → Prop} (shadowings : List Shadowing)
    (s : State) :
    Ends (shadowings.forM fun shadowing => tell (.shadows shadowing)) s
      (fun _ s' => s'.memo = s.memo) E := by
  induction shadowings generalizing s with
  | nil => exact Ends.pure rfl
  | cons shadowing shadowings ih =>
      rw [List.forM]
      refine Ends.bind (tell_ends _ s) ?_
      intro _ s' hmemo
      rw [← hmemo]
      exact ih s'

theorem finish_ends {E : CompileFault → State → Prop} (unit : SourceUnit)
    (program : Option Program) (diagnostics : List Diagnostic) (sources : Report.Sources)
    (s : State) :
    Ends (finish unit program diagnostics sources) s
      (fun comp s' => s'.memo = s.memo ∧ comp.unit = unit ∧ comp.program = program ∧
        comp.diagnostics = leadBack unit diagnostics ∧ comp.sources = sources) E :=
  ⟨rfl, rfl, rfl, rfl, rfl⟩

theorem remembered_apply (key : MemoKey) (s : State) :
    remembered key s = .ok (s.memo.lookup key) s :=
  rfl

theorem remember_ends {E : CompileFault → State → Prop} (key : MemoKey) (comp : Compilation)
    (s : State) :
    Ends (remember key comp) s (fun result s' =>
      (s.memo.lookup key = some result ∧ s'.memo = s.memo) ∨
        (s.memo.lookup key = none ∧ result = comp ∧ s'.memo = s.memo ++ [(key, comp)])) E := by
  rw [remember]
  refine Ends.step (remembered_apply key s) ?_
  cases hlookup : s.memo.lookup key with
  | some earlier => exact Ends.pure (.inl ⟨rfl, rfl⟩)
  | none => exact .inr ⟨rfl, rfl, rfl⟩

/-! ## Include tags -/

section

variable {compile : Path → CompileM Outcome} {m : Memory}

theorem Fits.found {tag : String × Span} {share : Share} (h : Fits c fs m₀ m unit stack tag share) :
    ∃ found, c.config.findTemplate fs tag.1 unit.path = .ok found := by
  cases h with
  | missing hfind => exact ⟨_, hfind⟩
  | circular hfind _ => exact ⟨_, hfind⟩
  | tooDeep hfind _ _ => exact ⟨_, hfind⟩
  | unreadable hfind _ _ _ => exact ⟨_, hfind⟩
  | reached hfind _ _ _ => exact ⟨_, hfind⟩

/-- A file that is unreadable is no fault here. -/
theorem readable_ends (hcompile : Compiles c fs m₀ stack compile) {path : Path} {s : State}
    (hs : Accounted c fs s.memo) (hkept : m₀.Kept s.memo) :
    Ends (readable (compile path)) s
      (fun result s' => Extends c fs stack s.memo s'.memo ∧
        match result with
        | .ok o => ∃ from', Arrives fs m₀ s'.memo stack (fs.resolve path) from' o ∧
            Built c fs m₀ s'.memo from' o
        | .error (file, reason) => Unreadable c fs path file reason)
      fun fault s' => Extends c fs stack s.memo s'.memo ∧
        ∀ file reason, fault ≠ .unreadable file reason := by
  refine Ends.tryCatch ((hcompile path s hs hkept).map fun o s' h => h) ?_
  intro fault s' hfault
  obtain ⟨hextends, hreason⟩ := hfault
  cases fault with
  | unreadable file reason => exact Ends.pure ⟨hextends, hreason file reason rfl⟩
  | _ => exact Ends.throw ⟨hextends, nofun⟩

/-- One include tag gets its share. -/
theorem resolveInclude_ends (hcompile : Compiles c fs m₀ stack compile) (unit : SourceUnit)
    (done : Included) (tag : String × Span) {s : State} (hs : Accounted c fs s.memo)
    (hkept : m₀.Kept s.memo) :
    Ends (resolveInclude c fs compile unit stack done tag) s
      (fun done' s' => Extends c fs stack s.memo s'.memo ∧
        ∃ share, Fits c fs m₀ s'.memo unit stack tag share ∧
          (∀ from' o, share = .reached from' o → Built c fs m₀ s'.memo from' o) ∧
          done' = done.add (tag, share))
      fun fault s' => Extends c fs stack s.memo s'.memo ∧
        ∀ file reason, fault = .unreadable file reason →
          c.config.findTemplate fs tag.1 unit.path = .error (file, reason) := by
  obtain ⟨path, span⟩ := tag
  rw [resolveInclude]
  refine Ends.bind ((liftRead_ends (c.config.findTemplate fs path unit.path) s).imp
    (fun _ _ h => h) ?_) ?_
  · rintro fault s' ⟨rfl, file, reason, hfind, rfl⟩
    refine ⟨.refl, ?_⟩
    rintro file' reason' ⟨⟩
    exact hfind
  · rintro found s' ⟨rfl, hfind⟩
    cases found with
    | none =>
        refine Ends.pure ⟨.refl, _, .missing hfind, nofun, ?_⟩
        exact (done.add_refused path span rfl).symm
    | some found =>
        dsimp only
        by_cases hstack : fs.resolve found ∈ stack
        · rw [if_pos (List.contains_iff_mem.mpr hstack)]
          refine Ends.pure ⟨.refl, _, .circular hfind hstack, nofun, ?_⟩
          exact (done.add_contextual path span rfl).symm
        · rw [if_neg fun h => hstack (List.contains_iff_mem.mp h)]
          by_cases hdepth : c.maxIncludeDepth ≤ stack.length
          · rw [if_pos hdepth]
            refine Ends.pure ⟨.refl, _, .tooDeep hfind hstack hdepth, nofun, ?_⟩
            exact (done.add_contextual path span rfl).symm
          · rw [if_neg hdepth]
            refine Ends.bind (tell_ends _ s') ?_
            intro _ s₁ hmemo
            rw [← hmemo] at hs hkept ⊢
            refine Ends.bind ((readable_ends hcompile hs hkept).imp (fun _ _ h => h) ?_) ?_
            · rintro fault s'' ⟨hextends, hother⟩
              exact ⟨hextends, fun file reason h => absurd h (hother file reason)⟩
            · rintro result s'' ⟨hextends, hresult⟩
              cases result with
              | error unreadable =>
                  obtain ⟨file, reason⟩ := unreadable
                  refine Ends.pure ⟨hextends, _,
                    .unreadable hfind hstack (Int.not_le.mp hdepth) hresult, nofun, ?_⟩
                  exact (done.add_refused path span rfl).symm
              | ok o =>
                  obtain ⟨from', harrives, hbuilt⟩ := hresult
                  have hfits : Fits c fs m₀ s''.memo unit stack (path, span) (.reached from' o) :=
                    .reached hfind hstack (Int.not_le.mp hdepth) harrives
                  have hshare : ∀ from'' o', Share.reached from' o = .reached from'' o' →
                      Built c fs m₀ s''.memo from'' o' := by
                    rintro _ _ ⟨⟩
                    exact hbuilt
                  cases hprogram : o.compilation.program with
                  | some program =>
                      simp only [hprogram]
                      refine Ends.pure ⟨hextends, _, hfits, hshare, ?_⟩
                      simp [Included.add, Share.program?, Share.diagnostics, Share.sources,
                        Share.contextual, hprogram]
                  | none =>
                      simp only [hprogram]
                      refine Ends.pure ⟨hextends, _, hfits, hshare, ?_⟩
                      simp [Included.add, Share.program?, Share.diagnostics, Share.sources,
                        Share.contextual, hprogram]

/-- All include tags get their shares, in order. -/
theorem includes_ends (hcompile : Compiles c fs m₀ stack compile) (unit : SourceUnit)
    (tags : List (String × Span)) (done : Included) {s : State} (hs : Accounted c fs s.memo)
    (hkept : m₀.Kept s.memo) :
    Ends (tags.foldlM (resolveInclude c fs compile unit stack) done) s
      (fun done' s' => Extends c fs stack s.memo s'.memo ∧
        ∃ entries : List Entry, entries.map Prod.fst = tags ∧
          (∀ entry ∈ entries, Fits c fs m₀ s'.memo unit stack entry.1 entry.2) ∧
          (∀ entry ∈ entries, ∀ from' o, entry.2 = .reached from' o →
            Built c fs m₀ s'.memo from' o) ∧
          done' = entries.foldl Included.add done)
      fun fault s' => Extends c fs stack s.memo s'.memo ∧
        ∀ file reason, fault = .unreadable file reason →
          lookupFault? c fs unit.path tags = some (file, reason) := by
  induction tags generalizing done s with
  | nil => exact Ends.pure ⟨.refl, [], rfl, nofun, nofun, rfl⟩
  | cons tag tags ih =>
      rw [List.foldlM_cons]
      have htag := resolveInclude_ends hcompile unit done tag hs hkept
      refine Ends.bind (htag.imp (fun _ _ h => h) ?_) ?_
      · rintro fault s' ⟨hextends, hfault⟩
        refine ⟨hextends, fun file reason h => ?_⟩
        rw [lookupFault?, List.findSome?_cons, hfault file reason h]
      · rintro done' s' ⟨hextends, share, hfits, hshare, rfl⟩
        have hrest := ih (done.add (tag, share)) (hextends.accounted hs) (hkept.trans hextends.kept)
        refine hrest.imp ?_ ?_
        · rintro done'' s'' ⟨hextends', entries, rfl, hall, hshares, rfl⟩
          refine ⟨hextends.trans hextends', (tag, share) :: entries, rfl, ?_, ?_, rfl⟩
          · exact List.forall_mem_cons.mpr ⟨hfits.mono hextends'.kept, hall⟩
          · refine List.forall_mem_cons.mpr ⟨fun from' o h => ?_, hshares⟩
            exact (hshare from' o h).mono hextends'.kept
        · rintro fault s'' ⟨hextends', hfault⟩
          refine ⟨hextends.trans hextends', fun file reason h => ?_⟩
          obtain ⟨found, hfound⟩ := hfits.found
          rw [lookupFault?, List.findSome?_cons, hfound]
          exact hfault file reason h

end

/-! ## Units -/

section

variable {compile : List Path → Path → CompileM Outcome}

theorem runParsed_ends
    (hcompile : Compiles c fs m₀ (stack ++ unit.path.toList) (compile (stack ++ unit.path.toList)))
    {delimiters : Delimiters} {parsed : Parsed} (hreads : Reads c unit delimiters parsed)
    (hnil : parsed.complaints = []) {s : State} (hs : Accounted c fs s.memo)
    (hkept : m₀.Kept s.memo) :
    Ends (runParsed c fs compile unit stack parsed.template) s
      (fun o s' => Extends c fs (stack ++ unit.path.toList) s.memo s'.memo ∧
        o.compilation.unit = unit ∧ Built c fs m₀ s'.memo stack o)
      fun fault s' => Extends c fs (stack ++ unit.path.toList) s.memo s'.memo ∧
        ∀ file reason, fault = .unreadable file reason → TagFault c fs unit file reason := by
  rw [runParsed_eq]
  refine Ends.bind (shadowings_ends _ s) ?_
  intro _ s₁ hmemo
  rw [← hmemo] at hs hkept ⊢
  refine Ends.bind ((includes_ends hcompile unit _ _ hs hkept).imp (fun _ _ h => h) ?_) ?_
  · rintro fault s' ⟨hextends, hfault⟩
    exact ⟨hextends, fun file reason h => ⟨_, _, hreads, hnil, hfault file reason h⟩⟩
  · rintro done s' ⟨hextends, entries, htags, hfits, hshares, hdone⟩
    have hbuilt : ∀ comp : Compilation, comp.unit = unit →
        Concludes c comp parsed.template done →
          Built c fs m₀ s'.memo stack ⟨comp, done.contextual⟩ := by
      rintro comp rfl hends
      have hflag : done.contextual = entries.any (·.2.contextual) := by
        rw [hdone, Included.contextual_foldl]
        rfl
      rw [hflag]
      rw [hdone] at hends
      exact .clean ⟨hreads, hnil, htags, hfits, hends⟩ hshares
    dsimp only
    by_cases hempty : done.diagnostics = []
    · rw [if_pos (List.isEmpty_iff.mpr hempty)]
      split
      · next program hprogram =>
          refine Ends.bind (finish_ends unit (some program) [] done.sources s') ?_
          rintro comp s'' ⟨hmemo', hunit, hsome, hdiagnostics, hsources⟩
          rw [← hmemo'] at hextends hbuilt
          refine Ends.pure ⟨hextends, hunit, hbuilt comp hunit ⟨?_, ?_, ?_, hsources⟩⟩
          · rw [hdiagnostics, hunit, hempty]
          · simp [hsome]
          · rintro _ hprogram'
            obtain rfl := Option.some.inj (hsome.symm.trans hprogram')
            rw [hunit]
            exact ⟨hempty, hprogram⟩
      · exact Ends.throw ⟨hextends, nofun⟩
    · rw [if_neg fun h => hempty (List.isEmpty_iff.mp h)]
      refine Ends.bind (finish_ends unit none done.diagnostics done.sources s') ?_
      rintro comp s'' ⟨hmemo', hunit, hnone, hdiagnostics, hsources⟩
      rw [← hmemo'] at hextends hbuilt
      refine Ends.pure ⟨hextends, hunit, hbuilt comp hunit ⟨?_, fun _ => hempty, ?_, hsources⟩⟩
      · rw [hdiagnostics, hunit]
      · simp [hnone]

theorem run_ends
    (hcompile : Compiles c fs m₀ (stack ++ unit.path.toList) (compile (stack ++ unit.path.toList)))
    {s : State} (hs : Accounted c fs s.memo)
    (hkept : m₀.Kept s.memo) :
    Ends (run c fs compile unit stack) s
      (fun o s' => Extends c fs (stack ++ unit.path.toList) s.memo s'.memo ∧
        o.compilation.unit = unit ∧ Built c fs m₀ s'.memo stack o)
      fun fault s' => Extends c fs (stack ++ unit.path.toList) s.memo s'.memo ∧
        ∀ file reason, fault = .unreadable file reason → TagFault c fs unit file reason := by
  rw [run]
  refine Ends.bind ((liftConfig_ends (c.config.delimiters c.syntaxName) s).imp (fun _ _ h => h) ?_)
    ?_
  · rintro fault s' ⟨rfl, -, hother⟩
    exact ⟨.refl, fun file reason h => absurd h (hother file reason)⟩
  · rintro delimiters s' ⟨rfl, hdelimiters⟩
    dsimp only
    split
    · exact Ends.throw ⟨.refl, nofun⟩
    · next parsed hparsed =>
        have hreads : Reads c unit delimiters parsed := ⟨hdelimiters, hparsed⟩
        by_cases hnil : parsed.complaints = []
        · rw [if_pos (List.isEmpty_iff.mpr hnil)]
          exact runParsed_ends hcompile hreads hnil hs hkept
        · rw [if_neg fun h => hnil (List.isEmpty_iff.mp h)]
          refine Ends.bind (finish_ends unit none _ unit.sources s') ?_
          rintro comp s'' ⟨hmemo, rfl, hnone, hdiagnostics, hsources⟩
          rw [← hmemo] at hs ⊢
          exact Ends.pure ⟨.refl, rfl, .broken hreads hnil hnone hdiagnostics hsources⟩

/-- A unit that is remembered is accounted for as one that is compiled. -/
theorem compileUnit_ends
    (hcompile : Compiles c fs m₀ (stack ++ unit.path.toList) (compile (stack ++ unit.path.toList)))
    {key : MemoKey} (hkey : key.Of fs unit) {s : State} (hs : Accounted c fs s.memo)
    (hkept : m₀.Kept s.memo) :
    Ends (compileUnit c fs compile unit key stack) s
      (fun o s' => Extends c fs (stack ++ unit.path.toList) s.memo s'.memo ∧
        key.Of fs o.compilation.unit ∧
        (o.contextual = false → s'.memo.lookup key = some o.compilation) ∧
        ∃ from', (o.contextual = true → from' = stack ∧ m₀.lookup key = none) ∧
          Built c fs m₀ s'.memo from' o)
      fun fault s' => Extends c fs (stack ++ unit.path.toList) s.memo s'.memo ∧
        ∀ file reason, fault = .unreadable file reason → TagFault c fs unit file reason := by
  have hremembered : ∀ {s : State} {earlier : Compilation}, Accounted c fs s.memo →
      s.memo.lookup key = some earlier → key.Of fs earlier.unit ∧ ∃ from',
        ((⟨earlier, false⟩ : Outcome).contextual = true → from' = stack ∧ m₀.lookup key = none) ∧
          Built c fs m₀ s.memo from' ⟨earlier, false⟩ := by
    intro s earlier hs hlookup
    obtain ⟨hof, from', hbuilt⟩ := hs key earlier hlookup
    exact ⟨hof, from', nofun, hbuilt.restart rfl m₀⟩
  rw [compileUnit]
  refine Ends.step (remembered_apply key s) ?_
  cases hlookup : s.memo.lookup key with
  | some earlier =>
      refine Ends.bind (tell_ends _ s) ?_
      intro _ s' hmemo
      rw [← hmemo] at hs hlookup ⊢
      obtain ⟨hof, hfrom⟩ := hremembered hs hlookup
      exact Ends.pure ⟨.refl, hof, fun _ => hlookup, hfrom⟩
  | none =>
      have hnew : m₀.lookup key = none := hkept.lookup_eq_none hlookup
      refine Ends.bind (tell_ends _ s) ?_
      intro _ s₁ hmemo
      rw [← hmemo] at hs hkept ⊢
      refine Ends.bind (run_ends hcompile hs hkept) ?_
      rintro o s' ⟨hextends, rfl, hbuilt⟩
      by_cases hcontextual : o.contextual
      · rw [if_pos hcontextual]
        refine Ends.pure ⟨hextends, hkey, ?_, stack, fun _ => ⟨rfl, hnew⟩, hbuilt⟩
        simp [hcontextual]
      · rw [if_neg hcontextual]
        have hfalse : o.contextual = false := Bool.eq_false_iff.mpr hcontextual
        have hplain : Built c fs m₀ s'.memo stack ⟨o.compilation, false⟩ := hfalse ▸ hbuilt
        refine Ends.bind (remember_ends key o.compilation s') ?_
        rintro result s'' (⟨hlookup', hmemo'⟩ | ⟨hnone, rfl, hmemo'⟩)
        · rw [← hmemo'] at hextends hlookup'
          obtain ⟨hof, hfrom⟩ := hremembered (hextends.accounted hs) hlookup'
          exact Ends.pure ⟨hextends, hof, fun _ => hlookup', hfrom⟩
        · have hadded :
              Extends c fs (stack ++ o.compilation.unit.path.toList) s'.memo s''.memo := by
            rw [hmemo']
            exact .add hnone hkey hplain
          refine Ends.pure ⟨hextends.trans hadded, hkey, fun _ => ?_, stack, nofun,
            hplain.mono hadded.kept⟩
          rw [hmemo', List.lookup_append, hnone, Option.none_or, List.lookup_cons_self]

end

/-! ## Files -/

theorem resolve_of_locate {path resolved : Path}
    (h : (fs.locate path).mapError (path, ·) = .ok resolved) : resolved = fs.resolve path := by
  unfold FileSystem.locate at h
  split at h
  · cases h
  · exact (Except.ok.inj h).symm

/-- A path that cannot be resolved leads to no text. -/
theorem readText_of_locate {path file : Path} {reason : ReadFault}
    (h : (fs.locate path).mapError (path, ·) = .error (file, reason)) :
    file = path ∧ fs.readText path = .error reason := by
  unfold FileSystem.locate at h
  split at h
  · next hzero =>
      obtain ⟨rfl, rfl⟩ := Prod.mk.inj (Except.error.inj h)
      refine ⟨rfl, ?_⟩
      rw [FileSystem.readText, FileSystem.readBytes, FileSystem.find, if_pos hzero]
      rfl
  · cases h

theorem compilePath_ends (fuel : Nat) : Compiles c fs m₀ stack (compilePath c fs fuel stack) := by
  induction fuel generalizing stack with
  | zero =>
      intro path s hs _
      exact Ends.throw ⟨.refl, nofun⟩
  | succ fuel ih =>
      intro path s hs hkept
      rw [compilePath]
      refine Ends.bind ((liftRead_ends ((fs.locate path).mapError (path, ·)) s).imp
        (fun _ _ h => h) ?_) ?_
      · rintro fault s' ⟨rfl, file, reason, hlocate, rfl⟩
        refine ⟨.refl, ?_⟩
        rintro file' reason' ⟨⟩
        obtain ⟨hfile, hread⟩ := readText_of_locate hlocate
        exact .noText hfile hread
      · rintro resolved s' ⟨rfl, hlocate⟩
        obtain rfl := resolve_of_locate hlocate
        refine Ends.step (remembered_apply (.file (fs.resolve path)) s') ?_
        cases hlookup : s'.memo.lookup (.file (fs.resolve path)) with
        | some earlier =>
            refine Ends.bind (tell_ends _ s') ?_
            intro _ s'' hmemo
            rw [← hmemo] at hs hlookup ⊢
            obtain ⟨hof, from', hbuilt⟩ := hs _ earlier hlookup
            exact Ends.pure ⟨.refl, from', ⟨hof, nofun, nofun, fun _ => hlookup⟩,
              hbuilt.restart rfl m₀⟩
        | none =>
            dsimp only
            split
            · next fault hfault =>
                refine Ends.throw ⟨.refl, ?_⟩
                rintro file reason ⟨⟩
                exact .noText rfl hfault
            · next text htext =>
                have hunit :
                    FileUnit fs { name := path.toString, text, path := some (fs.resolve path) }
                      (fs.resolve path) := ⟨rfl, rfl, path, rfl, rfl, htext⟩
                have hkey : (MemoKey.file (fs.resolve path)).Of fs
                    { name := path.toString, text, path := some (fs.resolve path) } := hunit
                refine (compileUnit_ends ih hkey hs hkept).imp ?_ ?_
                · rintro o s'' ⟨hextends, hof, hkept', from', hfrom, hbuilt⟩
                  exact ⟨hextends.shorten, from',
                    ⟨hof, fun h => (hfrom h).1, fun h => (hfrom h).2, hkept'⟩, hbuilt⟩
                · rintro fault s'' ⟨hextends, hfault⟩
                  exact ⟨hextends.shorten,
                    fun file reason h => .badTag hunit (hfault file reason h)⟩

/-! ## Requests -/

theorem compileFile_ends (path : Path) {s : State} (hs : Accounted c fs s.memo)
    (hkept : m₀.Kept s.memo) :
    Ends (compileFile c fs path) s
      (fun comp s' => Extends c fs [] s.memo s'.memo ∧
        ∃ o from', o.compilation = comp ∧ Arrives fs m₀ s'.memo [] (fs.resolve path) from' o ∧
          Built c fs m₀ s'.memo from' o)
      fun _ s' => Extends c fs [] s.memo s'.memo := by
  refine Ends.bind ((compilePath_ends c.includeFuel path s hs hkept).imp
    (fun _ _ h => h) fun _ _ h => h.1) ?_
  rintro o s' ⟨hextends, from', harrives, hbuilt⟩
  exact Ends.pure ⟨hextends, o, from', rfl, harrives, hbuilt⟩

/-- A file that is remembered is not compiled again. -/
theorem compileFile_of_lookup {path : Path} {s : State} {comp : Compilation}
    (hlocate : fs.locate path = .ok (fs.resolve path))
    (hlookup : s.memo.lookup (.file (fs.resolve path)) = some comp) :
    ∃ s', compileFile c fs path s = .ok comp s' := by
  have hrun : Ends (compileFile c fs path) s (fun result _ => result = comp) fun _ _ => False := by
    refine Ends.bind (P := fun o _ => o.compilation = comp) ?_ fun o s' h => Ends.pure h
    rw [includeFuel, compilePath, locate, hlocate]
    have hresolved : liftRead ((Except.ok (fs.resolve path)).mapError (path, ·)) s =
        .ok (fs.resolve path) s := rfl
    have hremembered := remembered_apply (.file (fs.resolve path)) s
    rw [hlookup] at hremembered
    refine Ends.step hresolved (Ends.step hremembered ?_)
    exact Ends.bind (tell_ends _ s) fun _ _ _ => Ends.pure rfl
  obtain ⟨result, s', hok, rfl⟩ := hrun.exists_ok fun _ _ h => h
  exact ⟨s', hok⟩

theorem compileSource_ends (text name : String) (origin : Option Span) (path : Option Path)
    {s : State} (hs : Accounted c fs s.memo) (hkept : m₀.Kept s.memo) :
    Ends (compileSource c fs text name origin path) s
      (fun comp s' => Extends c fs (path.map fs.resolve).toList s.memo s'.memo ∧
        comp.unit = ⟨name, text, path.map fs.resolve, origin⟩ ∧
        ∃ o from', o.compilation = comp ∧ (o.contextual = true → from' = []) ∧
          Built c fs m₀ s'.memo from' o)
      fun _ s' => Extends c fs (path.map fs.resolve).toList s.memo s'.memo := by
  have hpath : Ends (path.mapM (locate fs)) s
      (fun resolved s' => s' = s ∧ resolved = path.map fs.resolve) fun _ s' => s' = s := by
    cases path with
    | none => exact Ends.pure ⟨rfl, rfl⟩
    | some path =>
        refine ((liftRead_ends ((fs.locate path).mapError (path, ·)) s).imp (fun _ _ h => h)
          fun _ _ h => h.1).map ?_
        rintro resolved s' ⟨rfl, hlocate⟩
        exact ⟨rfl, congrArg some (resolve_of_locate hlocate)⟩
  refine Ends.bind (hpath.imp (fun _ _ h => h) ?_) ?_
  · rintro _ s' rfl
    exact .refl
  · rintro _ s' ⟨rfl, rfl⟩
    have hkey : (MemoKey.inline name text origin (path.map fs.resolve)).Of fs
        ⟨name, text, path.map fs.resolve, origin⟩ := rfl
    refine Ends.bind ((compileUnit_ends (compilePath_ends c.includeFuel) hkey hs hkept).imp
      (fun _ _ h => h) fun _ _ h => h.1) ?_
    rintro o s'' ⟨hextends, hof, -, from', hfrom, hbuilt⟩
    exact Ends.pure ⟨hextends, hof, o, from', rfl, fun h => (hfrom h).1, hbuilt⟩

theorem State.accounted_next {s : State} (hs : Accounted c fs s.memo) (r : Request) :
    Accounted c fs (s.next c fs r).memo := by
  unfold next
  cases r with
  | file path =>
      have hends := compileFile_ends path hs .refl
      split
      · next hok => exact (hends.of_ok hok).1.accounted hs
      · next herror => exact (hends.of_error herror).accounted hs
  | source text name origin path =>
      have hends := compileSource_ends text name origin path hs .refl
      split
      · next hok => exact (hends.of_ok hok).1.accounted hs
      · next herror => exact (hends.of_error herror).accounted hs

/-- Whatever was asked for, everything that is remembered is accounted for. -/
theorem State.accounted_after (c : Compiler) (fs : FileSystem) (history : List Request) :
    Accounted c fs (State.after c fs history).memo := by
  unfold after
  generalize hs : ({} : State) = s
  have h : Accounted c fs s.memo := hs ▸ Accounted.nil
  clear hs
  induction history generalizing s with
  | nil => exact h
  | cons r history ih => exact ih _ (accounted_next h r)

end Compiler

end TemplateCompiler
