import TemplateCompiler.Compiler.Run
import TemplateCompiler.Proofs.Effects
import TemplateCompiler.Proofs.Lookup

/-!
# What a compiler remembers

A compilation is decided if it has a program and no diagnostics, or diagnostics and no program.
Everything that a compiler does keeps the compilations in its memory decided, also work that ends in
a fault. So a compilation that is taken from the memory can be used like one that was just made.
-/

namespace TemplateCompiler

/-- There is a program, or there are diagnostics, and never both. -/
def Compilation.Decided (c : Compilation) : Prop :=
  (∃ program, c.program = some program ∧ c.diagnostics = []) ∨
    (c.program = none ∧ c.diagnostics ≠ [])

/-- Faults of what the compiler is given: the configuration, a file, or a source that the parser
cannot go through. -/
def CompileFault.Outside : CompileFault → Prop
  | .config _ | .unreadable _ _ | .stopped _ _ _ => True
  | .generation _ | .outOfFuel => False

namespace Compiler

/-- All remembered compilations are decided. -/
def State.Settled (s : State) : Prop :=
  ∀ entry ∈ s.memo, entry.2.Decided

theorem State.settled_initial : State.Settled {} :=
  nofun

/-- Work that leaves a settled state behind if it starts from one. Its result is as `Q` says and its
fault as `E` says. -/
def Keeps {α : Type} (E : CompileFault → Prop) (work : CompileM α) (Q : α → Prop) : Prop :=
  ∀ s : State, s.Settled →
    Ends work s (fun a s' => s'.Settled ∧ Q a) fun fault s' => s'.Settled ∧ E fault

namespace Keeps

variable {α β : Type} {E : CompileFault → Prop} {work : CompileM α} {P Q : α → Prop} {R : β → Prop}

/-! ## Combinations -/

theorem pure {a : α} (h : Q a) : Keeps E (Pure.pure a) Q :=
  fun _ hs => Ends.pure ⟨hs, h⟩

theorem throw {fault : CompileFault} (h : E fault) :
    Keeps E (MonadExcept.throw fault : CompileM α) Q :=
  fun _ hs => Ends.throw ⟨hs, h⟩

theorem bind {f : α → CompileM β} (hwork : Keeps E work P)
    (hf : ∀ a, P a → Keeps E (f a) R) : Keeps E (work >>= f) R :=
  fun s hs => (hwork s hs).bind fun a s' ha => hf a ha.2 s' ha.1

theorem map {f : α → β} (h : Keeps E work P) (hf : ∀ a, P a → R (f a)) :
    Keeps E (f <$> work) R :=
  fun s hs => (h s hs).map fun a _ ha => ⟨ha.1, hf a ha.2⟩

theorem forM {f : α → CompileM PUnit} (xs : List α)
    (h : ∀ x ∈ xs, Keeps E (f x) fun _ => True) : Keeps E (xs.forM f) fun _ => True := by
  induction xs with
  | nil => exact .pure trivial
  | cons x xs ih =>
      rw [List.forM]
      exact (h x List.mem_cons_self).bind fun _ _ => ih fun y hy => h y (List.mem_cons_of_mem _ hy)

/-- `I` holds of what has been reached and the elements that have been gone through. -/
theorem foldlM {f : β → α → CompileM β} {I : List α → β → Prop}
    (hstep : ∀ seen x b, I seen b → Keeps E (f b x) (I (seen ++ [x]))) (xs seen : List α) (b : β)
    (hb : I seen b) : Keeps E (xs.foldlM f b) (I (seen ++ xs)) := by
  induction xs generalizing seen b with
  | nil =>
      rw [List.append_nil]
      exact .pure hb
  | cons x xs ih =>
      rw [List.foldlM_cons, List.append_cons]
      exact (hstep seen x b hb).bind fun b' hb' => ih _ b' hb'

/-- A file that cannot be read becomes a result, and all other faults stay. -/
theorem readable (h : Keeps E work Q) :
    Keeps E (Compiler.readable work) fun
      | .ok a => Q a
      | .error _ => True := by
  intro s hs
  refine Ends.tryCatch ((h s hs).map fun a _ ha => ha) fun fault s' hfault => ?_
  cases fault with
  | unreadable path reason => exact Ends.pure ⟨hfault.1, trivial⟩
  | _ => exact Ends.throw hfault

/-! ## Steps -/

theorem tell (e : Event) : Keeps E (Compiler.tell e) fun _ => True :=
  fun _ hs => ⟨hs, trivial⟩

theorem remembered (key : MemoKey) :
    Keeps E (Compiler.remembered key) fun found => ∀ c, found = some c → c.Decided :=
  fun _ hs => ⟨hs, fun _ hc => hs _ (mem_of_lookup hc)⟩

theorem remember (key : MemoKey) {c : Compilation} (hc : c.Decided) :
    Keeps E (Compiler.remember key c) Compilation.Decided := by
  refine (Keeps.remembered key).bind fun found hfound => ?_
  cases found with
  | some earlier => exact .pure (hfound earlier rfl)
  | none =>
      intro s hs
      refine ⟨fun entry hentry => ?_, hc⟩
      rcases List.mem_append.mp hentry with hentry | hentry
      · exact hs entry hentry
      · obtain rfl := List.mem_singleton.mp hentry
        exact hc

theorem finish_program (unit : SourceUnit) (program : Program) (sources : Report.Sources) :
    Keeps E (finish unit (some program) [] sources) Compilation.Decided := by
  obtain ⟨name, text, path, _ | site⟩ := unit
  · exact fun s hs => ⟨hs, .inl ⟨program, rfl, rfl⟩⟩
  · exact fun s hs => ⟨hs, .inl ⟨program, rfl, rfl⟩⟩

theorem finish_diagnostics (unit : SourceUnit) {diagnostics : List Diagnostic}
    (h : diagnostics ≠ []) (sources : Report.Sources) :
    Keeps E (finish unit none diagnostics sources) Compilation.Decided := by
  obtain ⟨name, text, path, _ | site⟩ := unit
  · exact fun s hs => ⟨hs, .inr ⟨rfl, h⟩⟩
  · exact fun s hs => ⟨hs, .inr ⟨rfl, fun hnil => h (List.map_eq_nil_iff.mp hnil)⟩⟩

section

variable (hE : ∀ fault : CompileFault, fault.Outside → E fault)

include hE

theorem liftConfig (x : Except ConfigFault α) :
    Keeps E (Compiler.liftConfig x) fun a => x = .ok a := by
  cases x with
  | ok a => exact .pure rfl
  | error fault => exact .throw (hE (.config fault) trivial)

theorem liftRead (x : Except (Path × ReadFault) α) :
    Keeps E (Compiler.liftRead x) fun _ => True := by
  cases x with
  | ok a => exact .pure trivial
  | error fault => exact .throw (hE (.unreadable fault.1 fault.2) trivial)

theorem locate (fs : FileSystem) (path : Path) :
    Keeps E (Compiler.locate fs path) fun _ => True :=
  liftRead hE _

end

end Keeps

end Compiler

end TemplateCompiler
