/-!
# Runs that end well

The parser and the compiler are both computations that carry a state and may stop, and that keep
the state when they stop. `Ends p s Q E` says where a run of such a computation from one state can
end: `Q` holds of its result and last state, or `E` of what stopped it and its last state. Each rule
below follows one way to build a computation, so that a proof about a function reads along its
definition.
-/

namespace TemplateCompiler

variable {ε σ α β : Type}

theorem Except.exists_of_toOption_map {x : Except ε α} {f : α → β} {b : β}
    (h : x.toOption.map f = some b) : ∃ a, x = .ok a ∧ f a = b := by
  cases x with
  | ok a => exact ⟨a, rfl, Option.some.inj h⟩
  | error e => cases h

/-- A computation goes on behind a first part that succeeds. -/
theorem bind_apply_of_ok {p : EStateM ε σ α} {f : α → EStateM ε σ β} {s s' : σ} {a : α}
    (hp : p s = .ok a s') : (p >>= f) s = f a s' := by
  show EStateM.bind p f s = _
  rw [EStateM.bind, hp]

theorem bind_apply_of_error {p : EStateM ε σ α} {f : α → EStateM ε σ β} {s s' : σ} {e : ε}
    (hp : p s = .error e s') : (p >>= f) s = .error e s' := by
  show EStateM.bind p f s = _
  rw [EStateM.bind, hp]

theorem tryCatch_apply_of_ok {p : EStateM ε σ α} {handle : ε → EStateM ε σ α} {s s' : σ} {a : α}
    (hp : p s = .ok a s') : MonadExcept.tryCatch p handle s = .ok a s' := by
  show EStateM.tryCatch p handle s = _
  unfold EStateM.tryCatch
  rw [hp]

/-- A handler goes on from the state that the fault left behind. -/
theorem tryCatch_apply_of_error {p : EStateM ε σ α} {handle : ε → EStateM ε σ α} {s s' : σ} {e : ε}
    (hp : p s = .error e s') : MonadExcept.tryCatch p handle s = handle e s' := by
  show EStateM.tryCatch p handle s = _
  unfold EStateM.tryCatch
  rw [hp]
  rfl

/-- Run from `s`, the computation ends with a result and a state of which `Q` holds, or with a fault
and a state of which `E` holds. -/
def Ends (p : EStateM ε σ α) (s : σ) (Q : α → σ → Prop) (E : ε → σ → Prop) : Prop :=
  match p s with
  | .ok a s' => Q a s'
  | .error e s' => E e s'

namespace Ends

variable {p : EStateM ε σ α} {f : α → EStateM ε σ β} {s : σ} {E : ε → σ → Prop}

theorem of_ok {Q : α → σ → Prop} (h : Ends p s Q E) {a : α} {s' : σ} (hp : p s = .ok a s') :
    Q a s' := by
  simpa only [Ends, hp] using h

theorem of_error {Q : α → σ → Prop} (h : Ends p s Q E) {e : ε} {s' : σ}
    (hp : p s = .error e s') : E e s' := by
  simpa only [Ends, hp] using h

theorem imp {Q Q' : α → σ → Prop} {F : ε → σ → Prop} (h : Ends p s Q E)
    (hQ : ∀ a s', Q a s' → Q' a s') (hE : ∀ e s', E e s' → F e s') : Ends p s Q' F := by
  unfold Ends at *
  split
  · next a s' hp => exact hQ a s' (by simpa only [hp] using h)
  · next e s' hp => exact hE e s' (by simpa only [hp] using h)

theorem of_forall {Q : α → σ → Prop} (hQ : ∀ a s', Q a s') (hE : ∀ e s', E e s') :
    Ends p s Q E := by
  unfold Ends
  split
  · exact hQ _ _
  · exact hE _ _

/-- What is known of one run in two ways is known at once. -/
theorem and {Q Q' : α → σ → Prop} {E' : ε → σ → Prop} (h : Ends p s Q E) (h' : Ends p s Q' E') :
    Ends p s (fun a s' => Q a s' ∧ Q' a s') fun e s' => E e s' ∧ E' e s' := by
  unfold Ends at *
  split
  · next a s' hp => exact ⟨by simpa only [hp] using h, by simpa only [hp] using h'⟩
  · next e s' hp => exact ⟨by simpa only [hp] using h, by simpa only [hp] using h'⟩

/-- A run ends where it ends. -/
theorem self (p : EStateM ε σ α) (s : σ) :
    Ends p s (fun a s' => p s = .ok a s') fun e s' => p s = .error e s' := by
  unfold Ends
  split <;> assumption

theorem exists_ok {Q : α → σ → Prop} (h : Ends p s Q E) (hE : ∀ e s', ¬ E e s') :
    ∃ a s', p s = .ok a s' ∧ Q a s' := by
  cases hp : p s with
  | ok a s' => exact ⟨a, s', rfl, h.of_ok hp⟩
  | error e s' => exact absurd (h.of_error hp) (hE e s')

theorem pure {Q : α → σ → Prop} {a : α} (h : Q a s) :
    Ends (Pure.pure a : EStateM ε σ α) s Q E := h

theorem throw {Q : α → σ → Prop} {e : ε} (h : E e s) :
    Ends (MonadExcept.throw e : EStateM ε σ α) s Q E := h

theorem bind {P : α → σ → Prop} {Q : β → σ → Prop} (hp : Ends p s P E)
    (hf : ∀ a s', P a s' → Ends (f a) s' Q E) : Ends (p >>= f) s Q E := by
  show Ends (EStateM.bind p f) s Q E
  unfold Ends at hp ⊢
  unfold EStateM.bind
  cases h : p s with
  | ok a s' =>
      rw [h] at hp
      exact hf a s' hp
  | error e s' =>
      rw [h] at hp
      exact hp

/-- A step that is known to succeed. -/
theorem step {Q : β → σ → Prop} {a : α} {s' : σ} (hp : p s = .ok a s') (hf : Ends (f a) s' Q E) :
    Ends (p >>= f) s Q E := by
  unfold Ends at hf ⊢
  rwa [bind_apply_of_ok hp]

theorem map {P : α → σ → Prop} {Q : β → σ → Prop} {g : α → β} (hp : Ends p s P E)
    (hg : ∀ a s', P a s' → Q (g a) s') : Ends (g <$> p) s Q E :=
  bind hp hg

theorem tryCatch {Q : α → σ → Prop} {handle : ε → EStateM ε σ α} {F : ε → σ → Prop}
    (hp : Ends p s Q F) (hh : ∀ e s', F e s' → Ends (handle e) s' Q E) :
    Ends (MonadExcept.tryCatch p handle) s Q E := by
  unfold Ends at hp ⊢
  cases h : p s with
  | ok a s' =>
      rw [h] at hp
      rw [tryCatch_apply_of_ok h]
      exact hp
  | error e s' =>
      rw [h] at hp
      rw [tryCatch_apply_of_error h]
      exact hh e s' hp

theorem exists_of_run_map {f : α → β} {b : β} (h : (p.run' s).map f = some b) :
    ∃ a s', p s = .ok a s' ∧ f a = b := by
  unfold EStateM.run' EStateM.run at h
  cases hp : p s with
  | ok a s' =>
      rw [hp] at h
      exact ⟨a, s', rfl, Option.some.inj h⟩
  | error e s' =>
      rw [hp] at h
      cases h

end Ends

end TemplateCompiler
