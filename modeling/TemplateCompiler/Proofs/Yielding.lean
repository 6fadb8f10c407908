import TemplateCompiler.Proofs.Reading

/-!
# What a parser yields on tokens that it likes

For a function of the parser to give some result, the right tokens have to be ahead, and no more: it
only ever stops for want of fuel or at spans that are out of order, which the tokens' kinds and
values do not decide. `Yields s p Q` leaves these two out. Each rule speaks of tokens that are known
to be ahead, so that a proof reads the tokens along with the definition.
-/

namespace TemplateCompiler.Parser

variable {α β : Type}

/-- A stop that is not about the kinds and values of tokens. -/
def Stop.Accidental : Stop → Prop
  | .outOfFuel | .reversed _ => True
  | .complaint _ | .lexical _ | .exhausted | .badNumber _ => False

/-- No whitespace marker stands before the next text. -/
def State.Unmarked (s : State) : Prop :=
  ∀ marker, s.leftMarker = some marker → marker = ""

/-- Behind `us`, and nothing was wrong with them. -/
structure State.Past (s : State) (us : List Token) (s' : State) : Prop where
  ahead : s.unread = us ++ s'.unread
  fault : s'.fault = s.fault
  complaints : s'.complaints = s.complaints
  unmarked : s.Unmarked → (∀ t ∈ us, t.kind.isCloser → t.value = "") → s'.Unmarked

namespace State.Past

variable {s s' s'' : State} {us vs rest : List Token}

theorem refl (s : State) : s.Past [] s :=
  ⟨rfl, rfl, rfl, fun h _ => h⟩

theorem trans (h : s.Past us s') (h' : s'.Past vs s'') : s.Past (us ++ vs) s'' where
  ahead := by rw [h.ahead, h'.ahead, List.append_assoc]
  fault := h'.fault.trans h.fault
  complaints := h'.complaints.trans h.complaints
  unmarked hs hvalues := h'.unmarked
    (h.unmarked hs fun t ht => hvalues t (List.mem_append_left vs ht))
    fun t ht => hvalues t (List.mem_append_right us ht)

theorem unread_eq (h : s.Past us s') (hs : s.unread = us ++ rest) : s'.unread = rest :=
  List.append_cancel_left (h.ahead.symm.trans hs)

theorem rest_eq {t : Token} (h : s.Past [t] s') (hs : s.unread = t :: rest) : s'.unread = rest :=
  h.unread_eq hs

theorem consume {t : Token} (hs : s.unread = t :: rest) : s.Past [t] (s.consume t rest) where
  ahead := hs
  fault := rfl
  complaints := rfl
  unmarked hunmarked hvalues := by
    intro marker hmarker
    rw [State.consume] at hmarker
    dsimp only at hmarker
    split at hmarker
    · next hcloser =>
        rw [← Option.some.inj hmarker]
        exact hvalues t List.mem_cons_self hcloser
    · exact hunmarked marker hmarker

end State.Past

/-- Run from `s`, `p` gives a result and a state of which `Q` holds, unless it stops by accident. -/
def Yields (s : State) (p : Parser α) (Q : α → State → Prop) : Prop :=
  Ends p s Q fun e _ => e.Accidental

namespace Yields

variable {s : State} {p : Parser α} {f : α → Parser β} {P : α → State → Prop}
  {Q : β → State → Prop}

theorem imp {Q' : β → State → Prop} {p : Parser β} (h : Yields s p Q)
    (hQ : ∀ b s', Q b s' → Q' b s') : Yields s p Q' :=
  Ends.imp h hQ fun _ _ he => he

theorem pure {b : β} (h : Q b s) : Yields s (Pure.pure b) Q := h

theorem outOfFuel : Yields s (throw .outOfFuel : Parser β) Q :=
  Ends.throw trivial

theorem bind (hp : Yields s p P) (hf : ∀ a s', P a s' → Yields s' (f a) Q) :
    Yields s (p >>= f) Q :=
  Ends.bind hp hf

theorem of_bind {p : Parser β} (h : Yields s (p >>= Pure.pure) Q) : Yields s p Q := by
  rwa [bind_pure] at h

theorem map {g : α → β} (hp : Yields s p P) (hg : ∀ a s', P a s' → Q (g a) s') :
    Yields s (g <$> p) Q :=
  Ends.map hp hg

/-- A step that is known to succeed. -/
theorem step {a : α} {s' : State} (hp : p s = .ok a s') (hf : Yields s' (f a) Q) :
    Yields s (p >>= f) Q :=
  Ends.step hp hf

/-- Nothing is wrong with the tokens, so nothing is recovered from. -/
theorem recovering (hp : Yields s p P) :
    Yields s (recovering p) fun o s' => ∃ a, o = some a ∧ P a s' := by
  refine Ends.tryCatch (F := fun e _ => e.Accidental) (Ends.map hp fun a s' ha => ⟨a, rfl, ha⟩) ?_
  intro e s' he
  cases e with
  | complaint c => exact he.elim
  | _ => exact Ends.throw he

theorem get {f : State → Parser β} (h : Yields s (f s) Q) :
    Yields s (MonadState.get >>= f) Q :=
  step rfl h

/-! ## Single tokens -/

section

variable {f : Token → Parser β} {t u : Token} {rest : List Token}

theorem peek (hs : s.unread = t :: rest) (h : Yields s (f t) Q) : Yields s (peek >>= f) Q :=
  step (peek_eq hs) h

theorem peekSecond (hs : s.unread = t :: u :: rest) (ht : t.kind ≠ .eof) (h : Yields s (f u) Q) :
    Yields s (peekSecond >>= f) Q :=
  step (peekSecond_eq hs ht) h

theorem advance (hs : s.unread = t :: rest) (ht : t.kind ≠ .eof)
    (h : ∀ s', s.Past [t] s' → Yields s' (f t) Q) : Yields s (advance >>= f) Q :=
  step (advance_eq hs ht) (h _ (.consume hs))

theorem expect {kind : TokenKind} {problem : SyntaxProblem} (hs : s.unread = t :: rest)
    (ht : t.kind = kind) (hk : kind ≠ .eof) (h : ∀ s', s.Past [t] s' → Yields s' (f t) Q) :
    Yields s (expect kind problem >>= f) Q := by
  refine bind (P := fun a s' => a = t ∧ s.Past [t] s') ?_ ?_
  · refine peek hs ?_
    rw [if_pos ht]
    exact of_bind (advance hs (ht ▸ hk) fun s' hp => pure ⟨rfl, hp⟩)
  · rintro _ s' ⟨rfl, hp⟩
    exact h s' hp

theorem expectKeyword {word : String} (hs : s.unread = t :: rest) (ht : t.isKeyword word)
    (h : ∀ s', s.Past [t] s' → Yields s' (f t) Q) : Yields s (expectKeyword word >>= f) Q := by
  refine bind (P := fun a s' => a = t ∧ s.Past [t] s') ?_ ?_
  · refine peek hs ?_
    rw [if_pos ht]
    refine of_bind (advance hs ?_ fun s' hp => pure ⟨rfl, hp⟩)
    simp [Token.kind_eq_of_isKeyword ht]
  · rintro _ s' ⟨rfl, hp⟩
    exact h s' hp

end

/-! ## Spans -/

section

variable {f : Span → Parser β}

theorem checked {x : Except ReversedSpan Span} (h : ∀ span, x = .ok span → Yields s (f span) Q) :
    Yields s (checked x >>= f) Q := by
  cases x with
  | ok span => exact step rfl (h span rfl)
  | error r => exact Ends.bind (P := fun _ _ => False) (Ends.throw trivial) fun _ _ => False.elim

theorem join {a b : Span} (h : ∀ span, Yields s (f span) Q) : Yields s (join a b >>= f) Q :=
  checked fun span _ => h span

theorem spanFrom {unit : String} {start : Position} (hs : s.unread ≠ [])
    (h : ∀ span, Yields s (f span) Q) : Yields s (spanFrom unit start >>= f) Q := by
  obtain ⟨t, rest, hs⟩ := List.exists_cons_of_ne_nil hs
  have hprevious : Yields s previousEnd fun _ s' => s' = s := by
    refine get ?_
    split
    · exact pure rfl
    · exact peek hs (pure rfl)
  unfold Parser.spanFrom
  rw [bind_assoc]
  refine bind hprevious ?_
  rintro stop _ rfl
  exact checked fun span _ => h span

end

end Yields

end TemplateCompiler.Parser
