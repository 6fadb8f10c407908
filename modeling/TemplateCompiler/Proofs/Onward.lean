import TemplateCompiler.Proofs.Reading
import TemplateCompiler.Proofs.ScanSteps
import TemplateCompiler.Proofs.TokenOrder
import TemplateCompiler.Template.Parser.Expression

/-!
# Parsers move on

On tokens that stand in order and do not stop without an end, a parser only stops at something that
is wrong with them. Fuel is one reason why it might not: there is enough of it as long as every
token that is read pays for the functions entered until the next one. Spans are the other: what is
joined lies between the place the parser had reached before and the one it reaches.

`Moves scope s p Q` is the statement about one run. A run in a tag takes no delimiter and complains
about nothing outside of the tag; which tokens and which problems are allowed is its scope.
-/

namespace TemplateCompiler

/-- The problem lies in one tag, not in how tags follow each other. -/
def SyntaxProblem.isLocal : SyntaxProblem → Bool
  | .strayTag _ | .unclosedBlock _ => false
  | _ => true

/-- Tokens show this problem only if their kinds do not follow each other as in a source. -/
def SyntaxProblem.isUnscannable : SyntaxProblem → Bool
  | .unexpectedToken _ | .expectedCommentBody | .expectedCommentEnd => true
  | _ => false

/-- The problem lies between the delimiters of a tag. -/
def SyntaxProblem.isInTag (problem : SyntaxProblem) : Bool :=
  problem.isLocal && !problem.isUnscannable

theorem SyntaxProblem.isLocal_of_isInTag {problem : SyntaxProblem} (h : problem.isInTag) :
    problem.isLocal :=
  (Bool.and_eq_true_iff.mp h).1

theorem SyntaxProblem.isUnscannable_of_isInTag {problem : SyntaxProblem} (h : problem.isInTag) :
    problem.isUnscannable = false := by
  simpa using (Bool.and_eq_true_iff.mp h).2

namespace Parser

variable {α β : Type}

/-! ## States -/

/-- Where the last token ends. -/
def State.reached (s : State) : Nat :=
  match s.previous with
  | some t => t.span.stop.offset
  | none => 0

/-- The tokens ahead stand in order, and they end unless a fault ended them. -/
structure State.Ordered (s : State) : Prop where
  apart : s.unread.Pairwise fun t u => t.span.stop.offset ≤ u.span.start.offset
  forward : ∀ t ∈ s.unread, t.span.start.offset ≤ t.span.stop.offset
  behind : ∀ t ∈ s.unread, s.reached ≤ t.span.start.offset
  ends : s.fault = none → ∃ t ∈ s.unread, t.kind = .eof

/-- The tokens and the problems that a run may meet. -/
structure Scope where
  kinds : TokenKind → Bool
  problems : SyntaxProblem → Bool

def Scope.tag : Scope := ⟨TokenKind.isInner, SyntaxProblem.isInTag⟩

def Scope.any : Scope := ⟨fun _ => true, fun _ => true⟩

/-- From `s` to `s'` tokens of the scope were taken. -/
structure Scope.Onward (scope : Scope) (s s' : State) : Prop where
  ordered : s'.Ordered
  ahead : ∃ us, s.unread = us ++ s'.unread ∧ ∀ t ∈ us, scope.kinds t.kind
  reached : s.reached ≤ s'.reached
  previous : ∀ us, s.unread = us ++ s'.unread → s'.previous = us.getLast?.or s.previous
  fault : s'.fault = s.fault
  complaints : ∃ cs, s'.complaints = s.complaints ++ cs ∧ ∀ c ∈ cs, scope.problems c.problem

/-- Where no token was taken, the last one stays the last one. -/
theorem State.previous_of_unread_eq {s s' : State} (hunread : s'.unread = s.unread)
    (hprevious : s'.previous = s.previous) (us : List Token)
    (hus : s.unread = us ++ s'.unread) : s'.previous = us.getLast?.or s.previous := by
  rw [hunread] at hus
  rw [List.self_eq_append_left.mp hus, List.getLast?_nil, Option.none_or, hprevious]

namespace Scope.Onward

variable {scope : Scope} {s s' s'' : State}

theorem refl (h : s.Ordered) : scope.Onward s s where
  ordered := h
  ahead := ⟨[], rfl, List.forall_mem_nil _⟩
  reached := Nat.le_refl _
  previous := State.previous_of_unread_eq rfl rfl
  fault := rfl
  complaints := ⟨[], (List.append_nil _).symm, List.forall_mem_nil _⟩

theorem trans (h : scope.Onward s s') (h' : scope.Onward s' s'') : scope.Onward s s'' := by
  obtain ⟨us, hus, hkinds⟩ := h.ahead
  obtain ⟨vs, hvs, hkinds'⟩ := h'.ahead
  obtain ⟨cs, hcs, hproblems⟩ := h.complaints
  obtain ⟨ds, hds, hproblems'⟩ := h'.complaints
  have hboth : s.unread = us ++ vs ++ s''.unread := by
    rw [hus, hvs, List.append_assoc]
  refine ⟨h'.ordered, ⟨us ++ vs, hboth, ?_⟩, Nat.le_trans h.reached h'.reached, fun ws hws => ?_,
    h'.fault.trans h.fault, ⟨cs ++ ds, by rw [hds, hcs, List.append_assoc], ?_⟩⟩
  · exact List.forall_mem_append.mpr ⟨hkinds, hkinds'⟩
  · rw [← List.append_cancel_right (hboth.symm.trans hws), List.getLast?_append, Option.or_assoc,
      ← h.previous us hus]
    exact h'.previous vs hvs
  · exact List.forall_mem_append.mpr ⟨hproblems, hproblems'⟩

theorem any (h : scope.Onward s s') : Scope.any.Onward s s' := by
  obtain ⟨us, hus, -⟩ := h.ahead
  obtain ⟨cs, hcs, -⟩ := h.complaints
  exact ⟨h.ordered, ⟨us, hus, fun _ _ => rfl⟩, h.reached, h.previous, h.fault,
    ⟨cs, hcs, fun _ _ => rfl⟩⟩

/-- Where no token was read in the end, none was taken. -/
theorem taken (h : scope.Onward s s') (hnone : s'.previous = none) :
    s'.unread = s.unread ∧ s.previous = none := by
  obtain ⟨us, hus, -⟩ := h.ahead
  have hprevious := h.previous us hus
  rw [hnone, eq_comm, Option.or_eq_none_iff, List.getLast?_eq_none_iff] at hprevious
  rw [hus, hprevious.1]
  exact ⟨rfl, hprevious.2⟩

theorem length_le (h : scope.Onward s s') : s'.unread.length ≤ s.unread.length := by
  obtain ⟨us, hus, -⟩ := h.ahead
  rw [hus, List.length_append]
  omega

end Scope.Onward

/-- `s'` is the state behind the next token `t`. -/
structure State.Took (s : State) (t : Token) (s' : State) : Prop where
  unread : s.unread = t :: s'.unread
  start : s.reached ≤ t.span.start.offset
  forward : t.span.start.offset ≤ t.span.stop.offset
  reached : s'.reached = t.span.stop.offset
  previous : s'.previous = some t

theorem State.Took.length_lt {s s' : State} {t : Token} (h : s.Took t s') :
    s'.unread.length < s.unread.length := by
  rw [h.unread]
  exact Nat.lt_succ_self _

theorem State.Took.le_reached {s s' : State} {t : Token} (h : s.Took t s') :
    s.reached ≤ s'.reached := by
  rw [h.reached]
  exact Nat.le_trans h.start h.forward

theorem State.Took.start_le_reached {s s' : State} {t : Token} (h : s.Took t s') :
    t.span.start.offset ≤ s'.reached := by
  rw [h.reached]
  exact h.forward

/-- What lies behind `t` is in order as well. -/
theorem State.Ordered.consume {s : State} {t : Token} {rest : List Token} (h : s.Ordered)
    (hs : s.unread = t :: rest) (ht : t.kind ≠ .eof) :
    (s.consume t rest).Ordered ∧ s.Took t (s.consume t rest) := by
  obtain ⟨hbehind, hapart⟩ := List.pairwise_cons.mp (hs ▸ h.apart)
  obtain ⟨hforward, hrest⟩ := List.forall_mem_cons.mp (hs ▸ h.forward)
  refine ⟨⟨hapart, hrest, hbehind, fun hfault => ?_⟩, hs, h.behind t (by simp [hs]), hforward, rfl,
    rfl⟩
  obtain ⟨u, hu, heof⟩ := h.ends hfault
  rw [hs] at hu
  rcases List.mem_cons.mp hu with rfl | hu
  · exact absurd heof ht
  · exact ⟨u, hu, heof⟩

theorem State.Took.onward {scope : Scope} {s s' : State} {t : Token} (h : s.Took t s')
    (hordered : s'.Ordered) (hkind : scope.kinds t.kind) (hfault : s'.fault = s.fault)
    (hcomplaints : s'.complaints = s.complaints) : scope.Onward s s' where
  ordered := hordered
  ahead := ⟨[t], h.unread, by simpa using hkind⟩
  reached := h.le_reached
  previous us hus := by
    have hsingle : us = [t] := List.append_cancel_right (hus.symm.trans h.unread)
    rw [hsingle, h.previous]
    rfl
  fault := hfault
  complaints := ⟨[], by rw [hcomplaints, List.append_nil], List.forall_mem_nil _⟩

/-! ## Runs -/

/-- A stop that something is wrong with the tokens ahead of `s`. -/
def Scope.Stops (scope : Scope) (s : State) : Stop → Prop
  | .complaint c => scope.problems c.problem
  | .lexical f => s.fault = some f
  | .badNumber f => ∃ t ∈ s.unread, t.kind = .number ∧ readNumber t.value = .error f
  | .exhausted | .reversed _ | .outOfFuel => False

theorem Scope.Stops.any {scope : Scope} {s : State} {e : Stop} (h : scope.Stops s e) :
    Scope.any.Stops s e := by
  cases e with
  | complaint => rfl
  | _ => exact h

/-- What is wrong further on is wrong ahead. -/
theorem Scope.Stops.before {scope scope' : Scope} {s s' : State} {e : Stop}
    (h : scope'.Stops s' e) (ho : scope.Onward s s') : scope'.Stops s e := by
  cases e with
  | complaint c => exact h
  | lexical f => exact ho.fault.symm.trans h
  | badNumber f =>
      obtain ⟨us, hus, -⟩ := ho.ahead
      obtain ⟨t, ht, hbad⟩ := h
      exact ⟨t, hus ▸ List.mem_append_right us ht, hbad⟩
  | _ => exact h.elim

/-- From `s` on, `p` takes tokens and meets problems of the scope only. -/
def Moves (scope : Scope) (s : State) (p : Parser α) (Q : α → State → Prop) : Prop :=
  s.Ordered → Ends p s (fun a s' => scope.Onward s s' ∧ Q a s')
    fun e s' => scope.Onward s s' ∧ scope.Stops s e

namespace Moves

variable {scope : Scope} {s : State} {p : Parser α} {f : α → Parser β} {P Q : α → State → Prop}
  {R : β → State → Prop}

theorem imp (h : Moves scope s p P) (hQ : ∀ a s', scope.Onward s s' → P a s' → Q a s') :
    Moves scope s p Q :=
  fun hs => (h hs).imp (fun a s' ⟨ho, ha⟩ => ⟨ho, hQ a s' ho ha⟩) fun _ _ he => he

theorem pure {a : α} (h : Q a s) : Moves scope s (Pure.pure a) Q :=
  fun hs => Ends.pure ⟨.refl hs, h⟩

theorem throw {e : Stop} (h : scope.Stops s e) :
    Moves scope s (MonadExcept.throw e : Parser α) Q :=
  fun hs => Ends.throw ⟨.refl hs, h⟩

theorem complain {problem : SyntaxProblem} {span : Span} (h : scope.problems problem) :
    Moves scope s (complain problem span : Parser α) Q :=
  throw h

/-- What moves on from `s'`, seen from a state before it. -/
theorem after {s' : State} (ho : scope.Onward s s') (h : Moves scope s' p Q) :
    Ends p s' (fun a s'' => scope.Onward s s'' ∧ Q a s'')
      fun e s'' => scope.Onward s s'' ∧ scope.Stops s e :=
  (h ho.ordered).imp (fun _ _ ⟨ho', ha⟩ => ⟨ho.trans ho', ha⟩)
    fun _ _ ⟨ho', he⟩ => ⟨ho.trans ho', he.before ho⟩

theorem bind (hp : Moves scope s p P)
    (hf : ∀ a s', scope.Onward s s' → P a s' → Moves scope s' (f a) R) :
    Moves scope s (p >>= f) R :=
  fun hs => Ends.bind (hp hs) fun a s' ⟨ho, ha⟩ => after ho (hf a s' ho ha)

theorem of_bind (h : Moves scope s (p >>= Pure.pure) Q) : Moves scope s p Q := by
  rwa [bind_pure] at h

theorem map {g : α → β} (hp : Moves scope s p P)
    (hg : ∀ a s', scope.Onward s s' → P a s' → R (g a) s') : Moves scope s (g <$> p) R :=
  bind hp fun a s' ho ha => pure (hg a s' ho ha)

/-- A step that is known to succeed. -/
theorem step {a : α} {s' : State} (hp : p s = .ok a s') (ho : s.Ordered → scope.Onward s s')
    (hf : Moves scope s' (f a) R) : Moves scope s (p >>= f) R :=
  fun hs => Ends.step hp (after (ho hs) hf)

/-- A step that is known to stop. -/
theorem stop {e : Stop} (hp : p s = .error e s) (he : s.Ordered → scope.Stops s e) :
    Moves scope s (p >>= f) R := by
  intro hs
  refine Ends.bind (P := fun _ _ => False) ?_ fun _ _ => False.elim
  unfold Ends
  rw [hp]
  exact ⟨.refl hs, he hs⟩

/-! ## Single tokens -/

section

variable {f : Token → Parser β} {t : Token} {rest : List Token}

/-- Nothing is read behind the tokens unless a fault ended them. -/
theorem beyond_stops (hs : s.Ordered) (h : ∀ t ∈ s.unread, t.kind ≠ .eof) :
    scope.Stops s s.beyond := by
  unfold State.beyond
  split
  · next f hf => exact hf
  · next hf =>
      obtain ⟨t, ht, heof⟩ := hs.ends hf
      exact absurd heof (h t ht)

theorem peek (h : ∀ t rest, s.unread = t :: rest → Moves scope s (f t) R) :
    Moves scope s (peek >>= f) R := by
  cases hs : s.unread with
  | nil => exact stop (by rw [Parser.peek, hs]) fun ho => beyond_stops ho (by simp [hs])
  | cons t rest => exact step (peek_eq hs) .refl (h t rest hs)

theorem peekSecond (hs : s.unread = t :: rest) (ht : t.kind ≠ .eof)
    (h : ∀ u more, rest = u :: more → Moves scope s (f u) R) :
    Moves scope s (peekSecond >>= f) R := by
  cases rest with
  | nil =>
      refine stop (by rw [Parser.peekSecond, hs]; exact if_neg ht) fun ho => ?_
      exact beyond_stops ho (by simpa [hs] using ht)
  | cons u more =>
      exact step (peekSecond_eq hs ht) .refl (h u more rfl)

theorem advance (hs : s.unread = t :: rest) (ht : t.kind ≠ .eof) (hk : scope.kinds t.kind)
    (h : ∀ s', s.Took t s' → Moves scope s' (f t) R) : Moves scope s (advance >>= f) R := by
  intro ho
  obtain ⟨hordered, htook⟩ := ho.consume hs ht
  exact step (advance_eq hs ht) (fun _ => htook.onward hordered hk rfl rfl) (h _ htook) ho

theorem expect {kind : TokenKind} {problem : SyntaxProblem} (hne : kind ≠ .eof)
    (hk : scope.kinds kind) (hp : scope.problems problem)
    (h : ∀ t s', t.kind = kind → s.Took t s' → Moves scope s' (f t) R) :
    Moves scope s (expect kind problem >>= f) R := by
  refine bind (P := fun t s' => t.kind = kind ∧ s.Took t s') ?_ fun t s' _ ⟨ht, htook⟩ =>
    h t s' ht htook
  refine peek fun t rest hs => ?_
  split
  · next ht =>
      exact of_bind (advance hs (ht ▸ hne) (ht ▸ hk) fun s' htook => pure ⟨ht, htook⟩)
  · exact complain hp

theorem expectKeyword {word : String} (hk : scope.kinds .keyword)
    (hp : scope.problems (.expectedKeyword word))
    (h : ∀ t s', t.isKeyword word → s.Took t s' → Moves scope s' (f t) R) :
    Moves scope s (expectKeyword word >>= f) R := by
  refine bind (P := fun t s' => t.isKeyword word ∧ s.Took t s') ?_ fun t s' _ ⟨ht, htook⟩ =>
    h t s' ht htook
  refine peek fun t rest hs => ?_
  split
  · next ht =>
      have hkind := Token.kind_eq_of_isKeyword ht
      refine of_bind (advance hs (by simp [hkind]) (hkind ▸ hk) fun s' htook => pure ⟨ht, htook⟩)
  · exact complain hp

end

/-! ## Spans and complaints -/

section

theorem get {f : State → Parser β} (h : Moves scope s (f s) R) :
    Moves scope s (MonadState.get >>= f) R :=
  step rfl .refl h

theorem note {c : Complaint} {f : Unit → Parser β} (hp : scope.problems c.problem)
    (h : ∀ s', s'.complaints = s.complaints ++ [c] → s'.unread = s.unread →
      s'.reached = s.reached → Moves scope s' (f ()) R) :
    Moves scope s (note c >>= f) R := by
  refine step rfl (fun ho => ?_) (h _ rfl rfl rfl)
  exact ⟨⟨ho.apart, ho.forward, ho.behind, ho.ends⟩, ⟨[], rfl, List.forall_mem_nil _⟩,
    Nat.le_refl _, State.previous_of_unread_eq rfl rfl, rfl, ⟨[c], rfl, by simpa using hp⟩⟩

theorem modify {g : State → State} {f : PUnit → Parser β} (hunread : (g s).unread = s.unread)
    (hprevious : (g s).previous = s.previous) (hfault : (g s).fault = s.fault)
    (hcomplaints : (g s).complaints = s.complaints) (h : Moves scope (g s) (f ⟨⟩) R) :
    Moves scope s (modify g >>= f) R := by
  refine step rfl (fun ho => ?_) h
  have hreached : (g s).reached = s.reached := by
    unfold State.reached
    rw [hprevious]
  refine ⟨⟨hunread ▸ ho.apart, hunread ▸ ho.forward, ?_, ?_⟩,
    ⟨[], hunread.symm, List.forall_mem_nil _⟩, Nat.le_of_eq hreached.symm,
    State.previous_of_unread_eq hunread hprevious, hfault,
    ⟨[], by rw [hcomplaints, List.append_nil], List.forall_mem_nil _⟩⟩
  · rw [hunread, hreached]
    exact ho.behind
  · rw [hunread, hfault]
    exact ho.ends

variable {f : Span → Parser β}

theorem between {start stop : Position} {unit : String} (hle : start.offset ≤ stop.offset)
    (h : ∀ span : Span, span.start = start → span.stop = stop → Moves scope s (f span) R) :
    Moves scope s (checked (Span.between start stop unit) >>= f) R := by
  have hspan : Span.between start stop unit = .ok ⟨start, stop, unit⟩ :=
    if_neg (Nat.not_lt.mpr hle)
  rw [hspan]
  exact step rfl .refl (h _ rfl rfl)

theorem join {a b : Span} (hle : a.start.offset ≤ b.stop.offset)
    (h : ∀ span : Span, span.start = a.start → span.stop = b.stop → Moves scope s (f span) R) :
    Moves scope s (join a b >>= f) R :=
  between hle h

theorem spanFrom {unit : String} {start : Position} (hle : start.offset ≤ s.reached)
    (h : ∀ span, Moves scope s (f span) R) : Moves scope s (spanFrom unit start >>= f) R := by
  unfold Parser.spanFrom
  rw [bind_assoc]
  refine bind (P := fun stop s' => s' = s ∧ start.offset ≤ stop.offset) ?_ ?_
  · refine get ?_
    unfold State.reached at hle
    split
    · next t ht =>
        rw [ht] at hle
        exact pure ⟨rfl, hle⟩
    · next hnone =>
        rw [hnone] at hle
        exact peek fun t rest _ => pure ⟨rfl, Nat.le_trans hle (Nat.zero_le _)⟩
  · rintro stop _ - ⟨rfl, hstop⟩
    exact between hstop fun span _ _ => h span

end

end Moves

end Parser

end TemplateCompiler
