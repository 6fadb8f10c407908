import TemplateCompiler.Proofs.Effects
import TemplateCompiler.Template.Parser.Statement

/-!
# What a parser reads

A parser only ever takes tokens off the front of those ahead, also when it stops: a stop that is
caught leaves the parser behind the tokens that were read before it. `Reads ts s p Q` states this
together with what `p` makes of the tokens. The tokens `ts` were read before `s`, and `Q` speaks of
all that was read from there on, so that a rule appends to `ts` where a definition goes on to its
next step.

The end token is the one that is not used up by reading it; `Token.taken` leaves it out.
-/

namespace TemplateCompiler

/-- What reading a token takes off the tokens ahead. -/
def Token.taken (t : Token) : List Token :=
  if t.kind = .eof then [] else [t]

theorem Token.kind_eq_of_isKeyword {t : Token} {word : String} (h : t.isKeyword word) :
    t.kind = .keyword := by
  simp only [Token.isKeyword, Bool.and_eq_true, decide_eq_true_eq] at h
  exact h.1

namespace Parser

variable {α β : Type}

theorem peek_eq {s : State} {t : Token} {rest : List Token} (hs : s.unread = t :: rest) :
    peek s = .ok t s := by
  rw [peek, hs]

/-- The end of the last token that was taken, or where the first one starts if none was. -/
def State.lastEnd? (s : State) : Option Position :=
  (s.previous.map (·.span.stop)).or (s.unread.head?.map (·.span.start))

theorem State.lastEnd?_of_previous {s : State} {t : Token} (hs : s.previous = some t) :
    s.lastEnd? = some t.span.stop := by
  rw [lastEnd?, hs, Option.map_some, Option.some_or]

theorem previousEnd_eq {s : State} {stop : Position} (h : s.lastEnd? = some stop) :
    previousEnd s = .ok stop s := by
  refine (bind_apply_of_ok rfl).trans ?_
  unfold State.lastEnd? at h
  cases hprevious : s.previous with
  | some t =>
      rw [hprevious] at h
      obtain rfl := Option.some.inj h
      rfl
  | none =>
      rw [hprevious] at h
      obtain ⟨t, ht, rfl⟩ := Option.map_eq_some_iff.mp h
      obtain ⟨rest, hs⟩ := List.head?_eq_some_iff.mp ht
      exact bind_apply_of_ok (peek_eq hs)

theorem previousEnd_eq_error {s : State} (h : s.lastEnd? = none) :
    previousEnd s = .error s.beyond s := by
  obtain ⟨hprevious, hunread⟩ := Option.or_eq_none_iff.mp h
  rw [Option.map_eq_none_iff] at hprevious hunread
  refine (bind_apply_of_ok rfl).trans ?_
  rw [hprevious]
  exact bind_apply_of_error (by rw [peek, List.head?_eq_none_iff.mp hunread])

/-- A span reaches up to the last end. -/
theorem spanFrom_eq {s : State} {stop : Position} (h : s.lastEnd? = some stop) (unit : String)
    (start : Position) : spanFrom unit start s = checked (Span.between start stop unit) s :=
  bind_apply_of_ok (previousEnd_eq h)

theorem spanFrom_eq_error {s : State} (h : s.lastEnd? = none) (unit : String) (start : Position) :
    spanFrom unit start s = .error s.beyond s :=
  bind_apply_of_error (previousEnd_eq_error h)

theorem peekSecond_eq {s : State} {t u : Token} {rest : List Token}
    (hs : s.unread = t :: u :: rest) (ht : t.kind ≠ .eof) : peekSecond s = .ok u s := by
  rw [peekSecond, hs]
  exact if_neg ht

theorem advance_eq {s : State} {t : Token} {rest : List Token} (hs : s.unread = t :: rest)
    (ht : t.kind ≠ .eof) : advance s = .ok t (s.consume t rest) := by
  rw [advance, hs]
  simp only [if_neg ht]

/-- Run from `s`, `p` takes tokens off the front of those ahead, and if it ends with a result, `Q`
holds of the result and the tokens read, `ts` before them. -/
def Reads (ts : List Token) (s : State) (p : Parser α) (Q : α → List Token → Prop) : Prop :=
  Ends p s (fun a s' => ∃ us, s.unread = us ++ s'.unread ∧ Q a (ts ++ us))
    fun _ s' => ∃ us, s.unread = us ++ s'.unread

namespace Reads

/-! ## Results and steps -/

section

variable {ts : List Token} {s : State} {p : Parser α} {f : α → Parser β}
  {P Q : α → List Token → Prop} {R : β → List Token → Prop}

theorem imp (h : Reads ts s p P) (hQ : ∀ a us, P a us → Q a us) : Reads ts s p Q :=
  Ends.imp h (fun _ _ ⟨us, hu, ha⟩ => ⟨us, hu, hQ _ _ ha⟩) fun _ _ he => he

theorem pure {a : α} (h : Q a ts) : Reads ts s (Pure.pure a) Q :=
  Ends.pure ⟨[], rfl, by rwa [List.append_nil]⟩

theorem throw {stop : Stop} : Reads ts s (MonadExcept.throw stop : Parser α) Q :=
  Ends.throw ⟨[], rfl⟩

theorem complain {problem : SyntaxProblem} {span : Span} :
    Reads ts s (complain problem span : Parser α) Q :=
  throw

/-- What is read from `s'` on, seen from a state before it. -/
theorem after {s' : State} {us : List Token} (h : Reads (ts ++ us) s' p Q)
    (hu : s.unread = us ++ s'.unread) :
    Ends p s' (fun a s'' => ∃ vs, s.unread = vs ++ s''.unread ∧ Q a (ts ++ vs))
      fun _ s'' => ∃ vs, s.unread = vs ++ s''.unread := by
  refine Ends.imp h ?_ ?_
  · rintro a s'' ⟨vs, hv, ha⟩
    exact ⟨us ++ vs, by rw [hu, hv, List.append_assoc], by rwa [← List.append_assoc]⟩
  · rintro e s'' ⟨vs, hv⟩
    exact ⟨us ++ vs, by rw [hu, hv, List.append_assoc]⟩

/-- A step that is known to succeed. -/
theorem step {a : α} {s' : State} (us : List Token) (hp : p s = .ok a s')
    (hu : s.unread = us ++ s'.unread) (hf : Reads (ts ++ us) s' (f a) R) :
    Reads ts s (p >>= f) R := by
  have hend := after hf hu
  unfold Reads Ends at hend ⊢
  rwa [bind_apply_of_ok hp]

/-- A step that is known to stop. -/
theorem stop {e : Stop} {s' : State} (us : List Token) (hp : p s = .error e s')
    (hu : s.unread = us ++ s'.unread) : Reads ts s (p >>= f) R := by
  simp only [Reads, Ends, bind_apply_of_error hp]
  exact ⟨us, hu⟩

/-- A step that goes on behind what was read. -/
theorem seq (hp : Reads ts s p P) (hf : ∀ a us s', P a us → Reads us s' (f a) R) :
    Reads ts s (p >>= f) R := by
  cases h : p s with
  | ok a s' =>
      obtain ⟨us, hu, ha⟩ := hp.of_ok h
      exact step us h hu (hf a (ts ++ us) s' ha)
  | error e s' =>
      obtain ⟨us, hu⟩ := hp.of_error h
      exact stop us h hu

/-- A last step with a lemma of its own, which holds wherever the step starts. -/
theorem last (hp : Reads [] s p P) (hQ : ∀ a us, P a us → Q a (ts ++ us)) : Reads ts s p Q :=
  Ends.imp hp (fun _ _ ⟨us, hu, ha⟩ => ⟨us, hu, hQ _ _ ha⟩) fun _ _ he => he

/-- A step with a lemma of its own, which holds wherever the step starts. -/
theorem bind (hp : Reads [] s p P) (hf : ∀ a us s', P a us → Reads (ts ++ us) s' (f a) R) :
    Reads ts s (p >>= f) R := by
  refine seq (P := fun a us => ∃ vs, us = ts ++ vs ∧ P a vs) ?_ ?_
  · exact last hp fun a us ha => ⟨us, rfl, ha⟩
  · rintro a _ s' ⟨us, rfl, ha⟩
    exact hf a us s' ha

/-- A last step, by a rule for steps that are followed by others. -/
theorem of_bind (h : Reads ts s (p >>= Pure.pure) Q) : Reads ts s p Q := by
  rwa [bind_pure] at h

theorem map {g : α → β} (hp : Reads [] s p P) (hg : ∀ a us, P a us → R (g a) (ts ++ us)) :
    Reads ts s (g <$> p) R :=
  bind hp fun a us _ ha => pure (hg a us ha)

end

/-! ## Single tokens -/

section

variable {ts : List Token} {s : State} {f : Token → Parser β} {R : β → List Token → Prop}
  {t : Token} {rest : List Token}

theorem peek (h : ∀ t rest, s.unread = t :: rest → Reads ts s (f t) R) :
    Reads ts s (peek >>= f) R := by
  cases hs : s.unread with
  | nil => exact stop [] (by rw [Parser.peek, hs]) rfl
  | cons t rest =>
      refine step [] (peek_eq hs) rfl ?_
      rw [List.append_nil]
      exact h t rest hs

theorem peekSecond (hs : s.unread = t :: rest) (ht : t.kind ≠ .eof)
    (h : ∀ u more, rest = u :: more → Reads ts s (f u) R) :
    Reads ts s (peekSecond >>= f) R := by
  cases rest with
  | nil => exact stop [] (by rw [Parser.peekSecond, hs]; exact if_neg ht) rfl
  | cons u more =>
      refine step [] (peekSecond_eq hs ht) rfl ?_
      rw [List.append_nil]
      exact h u more rfl

theorem advance (h : ∀ t s', Reads (ts ++ t.taken) s' (f t) R) :
    Reads ts s (advance >>= f) R := by
  cases hs : s.unread with
  | nil => exact stop [] (by rw [Parser.advance, hs]) rfl
  | cons t rest =>
      refine step t.taken (by rw [Parser.advance, hs]) ?_ (h t _)
      by_cases ht : t.kind = .eof <;> simp [hs, ht, Token.taken, State.consume]

/-- Reading a token that is known to be next. -/
theorem advance_of (hs : s.unread = t :: rest) (ht : t.kind ≠ .eof)
    (h : ∀ s', s'.unread = rest → Reads (ts ++ [t]) s' (f t) R) :
    Reads ts s (Parser.advance >>= f) R :=
  step [t] (advance_eq hs ht) hs (h _ rfl)

/-- Reading an expected token, which then is the one just read. -/
theorem expect_behind {kind : TokenKind} {problem : SyntaxProblem} (hk : kind ≠ .eof)
    (h : ∀ t s', t.kind = kind → s'.previous = some t → Reads (ts ++ [t]) s' (f t) R) :
    Reads ts s (Parser.expect kind problem >>= f) R := by
  cases hs : s.unread with
  | nil => exact stop [] (by rw [Parser.expect, bind_apply_of_error (by rw [Parser.peek, hs])]) rfl
  | cons t rest =>
      have hpeek : Parser.expect kind problem s =
          (if t.kind = kind then Parser.advance else Parser.complain problem t.span) s := by
        rw [Parser.expect, bind_apply_of_ok (peek_eq hs)]
      by_cases ht : t.kind = kind
      · rw [if_pos ht, advance_eq hs (ht ▸ hk)] at hpeek
        exact step [t] hpeek hs (h t _ ht rfl)
      · rw [if_neg ht] at hpeek
        exact stop [] hpeek rfl

theorem expect {kind : TokenKind} {problem : SyntaxProblem} (hk : kind ≠ .eof)
    (h : ∀ t s', t.kind = kind → Reads (ts ++ [t]) s' (f t) R) :
    Reads ts s (Parser.expect kind problem >>= f) R :=
  expect_behind hk fun t s' ht _ => h t s' ht

theorem expectKeyword {word : String}
    (h : ∀ t s', t.isKeyword word → Reads (ts ++ [t]) s' (f t) R) :
    Reads ts s (expectKeyword word >>= f) R := by
  refine bind (P := fun t us => t.isKeyword word ∧ us = [t]) ?_ ?_
  · refine peek fun t rest hs => ?_
    split
    · next ht =>
        have hkind : t.kind ≠ .eof := by simp [Token.kind_eq_of_isKeyword ht]
        exact of_bind (advance_of hs hkind fun s' _ => pure ⟨ht, rfl⟩)
    · exact complain
  · rintro t us s' ⟨ht, rfl⟩
    exact h t s' ht

end

/-! ## Steps that leave the tokens alone -/

section

variable {ts : List Token} {s : State} {R : β → List Token → Prop}

theorem get {f : State → Parser β} (h : Reads ts s (f s) R) :
    Reads ts s (MonadState.get >>= f) R :=
  step [] rfl rfl (by rwa [List.append_nil])

theorem modify {g : State → State} {f : PUnit → Parser β} (hg : (g s).unread = s.unread)
    (h : Reads ts (g s) (f ⟨⟩) R) : Reads ts s (modify g >>= f) R :=
  step [] rfl hg.symm (by rwa [List.append_nil])

theorem note {c : Complaint} {f : Unit → Parser β} (h : ∀ s', Reads ts s' (f ()) R) :
    Reads ts s (note c >>= f) R :=
  modify rfl (h _)

theorem join {a b : Span} {f : Span → Parser β}
    (h : ∀ span, a.upTo b = .ok span → Reads ts s (f span) R) :
    Reads ts s (join a b >>= f) R := by
  cases hspan : a.upTo b with
  | ok span =>
      refine step [] (by rw [Parser.join, hspan]; rfl) rfl ?_
      rw [List.append_nil]
      exact h span hspan
  | error r => exact stop [] (by rw [Parser.join, hspan]; rfl) rfl

theorem spanFrom {unit : String} {start : Position} {f : Span → Parser β}
    (h : ∀ span s', Reads ts s' (f span) R) : Reads ts s (spanFrom unit start >>= f) R := by
  refine bind (P := fun _ us => us = []) ?_ fun span us s' hus => ?_
  · refine bind (P := fun _ us => us = []) ?_ fun stop us s' hus => ?_
    · refine get ?_
      split
      · exact pure rfl
      · exact peek fun t rest _ => pure rfl
    · subst hus
      cases Span.between start stop unit with
      | ok span => exact pure rfl
      | error r => exact throw
  · subst hus
    rw [List.append_nil]
    exact h span s'

/-- A span that is taken behind a token goes up to the end of the token. -/
theorem spanFrom_between {t : Token} (ht : s.previous = some t) {unit : String} {start : Position}
    {f : Span → Parser β}
    (h : ∀ span, Span.between start t.span.stop unit = .ok span → Reads ts s (f span) R) :
    Reads ts s (Parser.spanFrom unit start >>= f) R := by
  have hspan := spanFrom_eq (State.lastEnd?_of_previous ht) unit start
  cases hbetween : Span.between start t.span.stop unit with
  | error r =>
      rw [hbetween] at hspan
      exact stop [] hspan rfl
  | ok span =>
      rw [hbetween] at hspan
      refine step [] hspan rfl ?_
      rw [List.append_nil]
      exact h span hbetween

theorem spanFrom_behind {t : Token} (ht : s.previous = some t) {unit : String} {start : Position}
    {f : Span → Parser β} (h : ∀ span : Span, span.stop = t.span.stop → Reads ts s (f span) R) :
    Reads ts s (Parser.spanFrom unit start >>= f) R := by
  refine spanFrom_between ht fun span hspan => h span ?_
  unfold Span.between at hspan
  split at hspan
  · cases hspan
  · obtain rfl := Except.ok.inj hspan
    rfl

end

/-! ## Recovery -/

section

variable {s : State} {p : Parser α} {P : α → List Token → Prop}

theorem skipTag : Reads [] s skipTag fun _ _ => True := by
  suffices h : ∀ (ahead : List Token) (s : State), s.unread = ahead →
      Reads [] s (skipTagFrom ahead) fun _ _ => True from h s.unread s rfl
  intro ahead
  induction ahead with
  | nil => exact fun s hs => ⟨[], rfl⟩
  | cons t rest ih =>
      intro s hs
      unfold Reads Ends skipTagFrom
      by_cases heof : t.kind = .eof
      · simp only [if_pos heof]
        exact ⟨[], rfl, trivial⟩
      · by_cases hclose : t.kind.isCloser
        · simp only [if_neg heof, if_pos hclose]
          exact ⟨[t], hs, trivial⟩
        · simp only [if_neg heof, if_neg hclose]
          refine Ends.imp (ih (s.consume t rest) rfl) ?_ ?_
          · rintro - s' ⟨us, hu, -⟩
            exact ⟨t :: us, by rw [hs, List.cons_append, ← hu]; rfl, trivial⟩
          · rintro - s' ⟨us, hu⟩
            exact ⟨t :: us, by rw [hs, List.cons_append, ← hu]; rfl⟩

theorem recover {c : Complaint} : Reads [] s (recover c) fun _ _ => True :=
  note fun _ => skipTag

/-- What is read where a problem is met and skipped is any tokens at all. -/
theorem recovering (hp : Reads [] s p P) :
    Reads [] s (recovering p) fun o us => ∀ a, o = some a → P a us := by
  refine Ends.tryCatch (F := fun _ s' => ∃ us, s.unread = us ++ s'.unread) ?_ ?_
  · refine map (R := fun o us => ∀ a, o = some a → P a us) hp fun a us ha => ?_
    rintro _ ⟨⟩
    exact ha
  · rintro e s' ⟨us, hu⟩
    refine after (Q := fun o us => ∀ a, o = some a → P a us) ?_ hu
    cases e with
    | complaint c => exact bind recover fun _ _ _ _ => pure nofun
    | _ => exact throw

end

end Reads

/-! ## Ends that several branches share -/

open Template (Expr Node)

/-- What stands behind a parameter: a comma and further parameters, or the end of the list. -/
def parametersBehind (unit definition : String) (fuel : Nat) (params : List (Parameter Expr)) :
    Parser (List (Parameter Expr)) := do
  let sep ← peek
  match sep.kind with
  | .comma =>
    let _ ← advance
    parametersFrom unit definition fuel params
  | .rightParen =>
    let _ ← advance
    return params
  | _ => complain .unclosedParameters sep.span

theorem parametersFrom_succ (unit definition : String) (fuel : Nat)
    (params : List (Parameter Expr)) : parametersFrom unit definition (fuel + 1) params = (do
      let t ← peek
      match t.kind with
      | .rightParen =>
        let _ ← advance
        return params
      | .identifier =>
        let _ ← advance
        let default ← parameterDefault
        let params ←
          if params.any (·.name = t.value) then
            note ⟨.duplicateParameter t.value definition, t.span⟩
            pure params
          else pure (params ++ [⟨t.value, default, ← spanFrom unit t.span.start⟩])
        parametersBehind unit definition fuel params
      | _ => complain .unclosedParameters t.span) :=
  rfl

/-- What stands behind the bodies of a loop. -/
def loopEnd (setting : Setting) (opening : Token) (header : Option (List String × Expr))
    (nodes otherwise : List Node) : Parser (Option Node) := do
  endTag "endfor"
  match header with
  | none => return none
  | some (targets, iterable) =>
    let span ← spanFrom setting.unit opening.span.start
    return some (.loop targets iterable nodes otherwise span)

theorem loop_succ (setting : Setting) (opening : Token) (fuel : Nat) :
    loop setting opening (fuel + 1) = (do
      let header ← recovering loopHeader
      let (nodes, word) ← body setting opening "for" ["else", "endfor"] fuel
      let otherwise ←
        if word = "else" then
          endTag "else"
          pure (← body setting opening "for" ["endfor"] fuel).1
        else pure []
      loopEnd setting opening header nodes otherwise) := by
  rw [loop]
  rfl

end Parser

end TemplateCompiler
