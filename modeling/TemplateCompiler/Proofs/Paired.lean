import TemplateCompiler.Proofs.Gathering
import TemplateCompiler.Proofs.JoinedTexts
import TemplateCompiler.Proofs.Yielding

/-!
# Two runs on tokens of the same kinds and values

What a parser does depends on the kinds and values of its tokens. Their spans only go into the tree
and into complaints, each of which is about the span of a token that was there to read. So two runs
on tokens that agree in kinds and values stay side by side. They may differ in where they run out of
fuel, and in whether two spans can be joined; these accidents are left out.

A `Pairing` says which tokens may stand side by side. It may also allow that the first run has a
comment that the second has not, with one text in the second where the first has the texts before
and behind the comment (`Ahead.joint`). That needs settings under which no text is trimmed there.
Paired with itself, a run shows which spans its complaints have.

`Pair` relates two runs from states that stand side by side. Each rule follows one way to build a
parser.
-/

namespace TemplateCompiler.Parser

open Template (Expr Node)

variable {α β γ δ : Type}

/-- Only complaints are recovered from. -/
theorem recovering_eq_error {p : Parser α} {s s' : State} {e : Stop} (hp : p s = .error e s')
    (he : ∀ c, e ≠ .complaint c) : recovering p s = .error e s' := by
  refine (tryCatch_apply_of_error (bind_apply_of_error hp)).trans ?_
  cases e with
  | complaint c => exact absurd rfl (he c)
  | _ => rfl

/-! ## Side by side -/

/-- What may stand side by side in two runs of a parser with one setting. -/
structure Pairing where
  setting : Setting
  tokens : Token → Token → Prop
  faults : LexicalFault → LexicalFault → Prop
  /-- May the first run have comments that the second does not have? -/
  joins : Prop
  kind : ∀ {t u}, tokens t u → u.kind = t.kind
  value : ∀ {t u}, tokens t u → u.value = t.value
  /-- Next to a comment that is left out no text is trimmed. -/
  plain : joins → ∀ {t u}, tokens t u → t.kind.isOpener ∨ t.kind.isCloser →
    setting.effective (some t.value) = .preserve

/-- The text of a token that may be missing. -/
def textOf (o : Option Token) : String :=
  (o.map Token.value).getD ""

/-- A text that is put together from one before and one behind a comment. -/
structure Joins (before after whole : Option Token) : Prop where
  value : textOf whole = textOf before ++ textOf after
  texts : ∀ o ∈ [before, after, whole], ∀ t ∈ o, t.kind = .text ∧ t.value ≠ ""

namespace Pairing

variable (P : Pairing)

/-- Two token sequences, read from a mode on, that stand side by side. -/
inductive Ahead : ScanMode → List Token → List Token → Prop
  | nil {mode} : Ahead mode [] []
  | step {mode mode' t u ts us} (htokens : P.tokens t u) (hturns : mode.Turns t.kind mode')
      (h : Ahead mode' ts us) : Ahead mode (t :: ts) (u :: us)
  | joint {opening body close : Token} {before after whole : Option Token} {ts us}
      (hjoins : P.joins) (hopening : opening.kind = .commentStart)
      (hbody : body.kind = .comment) (hclose : close.kind = .commentEnd)
      (hplain : ∀ t ∈ [opening, close], P.setting.effective (some t.value) = .preserve)
      (htexts : Joins before after whole) (hts : ts ≠ []) (hus : us ≠ []) (h : Ahead .text ts us) :
      Ahead .text (before.toList ++ opening :: body :: close :: (after.toList ++ ts))
        (whole.toList ++ us)

/-- Complaints about the same, at tokens that stand side by side. -/
structure Complaints (c c' : Complaint) : Prop where
  problem : c'.problem = c.problem
  proper : ∀ p, c.problem ≠ .lexical p
  spans : ∃ t u, P.tokens t u ∧ c.span = t.span ∧ c'.span = u.span

/-- Stops that are neither complaints nor accidents. -/
inductive Stops : Stop → Stop → Prop
  | lexical {f f'} (h : P.faults f f') : Stops (.lexical f) (.lexical f')
  | exhausted : Stops .exhausted .exhausted
  | badNumber {f} : Stops (.badNumber f) (.badNumber f)

/-- States that stand side by side. If `begun`, a token was read before. -/
structure Beside (mode : ScanMode) (begun : Prop) (s s' : State) : Prop where
  ahead : P.Ahead mode s.unread s'.unread
  fault : Option.Rel P.faults s.fault s'.fault
  complaints : List.Forall₂ P.Complaints s.complaints s'.complaints
  begun : begun → s.previous ≠ none ∧ s'.previous ≠ none
  markers : P.setting.effective s'.leftMarker = P.setting.effective s.leftMarker
  plain : P.joins → P.setting.effective s.leftMarker = .preserve

/-- Run from `s` and `s'`, the two end alike: with results and states of which `Q` holds, with
complaints that can be recovered from, with other stops, or one of them by accident. -/
inductive Pair (s s' : State) (p : Parser α) (q : Parser β) (Q : α → β → State → State → Prop) :
    Prop
  | ok {a b s₁ s₁'} (hp : p s = .ok a s₁) (hq : q s' = .ok b s₁') (h : Q a b s₁ s₁')
  | complaint {c c' s₁ s₁'} (hp : p s = .error (.complaint c) s₁)
      (hq : q s' = .error (.complaint c') s₁') (hc : P.Complaints c c')
      (hs : P.Beside .tag True s₁ s₁')
  | stop {e e' s₁ s₁'} (hp : p s = .error e s₁) (hq : q s' = .error e' s₁') (he : P.Stops e e')
      (hs : List.Forall₂ P.Complaints s₁.complaints s₁'.complaints)
  | first {e s₁} (hp : p s = .error e s₁) (he : e.Accidental)
  | second {e s₁'} (hq : q s' = .error e s₁') (he : e.Accidental)

end Pairing

namespace Pairing

variable {P : Pairing} {mode : ScanMode} {begun : Prop} {s s' : State} {t u : Token}
  {rest rest' : List Token}

theorem isKeyword (h : P.tokens t u) (word : String) : u.isKeyword word = t.isKeyword word := by
  unfold Token.isKeyword
  rw [P.kind h, P.value h]

/-- In a tag there is no joint. -/
theorem Ahead.tag_cases {ts us : List Token} (h : P.Ahead .tag ts us) :
    (ts = [] ∧ us = []) ∨ ∃ t rest u rest', ts = t :: rest ∧ us = u :: rest' ∧ P.tokens t u ∧
      (t.kind.isInner ∧ P.Ahead .tag rest rest' ∨
        (t.kind = .blockEnd ∨ t.kind = .exprEnd) ∧ P.Ahead .text rest rest' ∨
        t.kind = .eof ∧ rest = [] ∧ rest' = []) := by
  cases h with
  | nil => exact .inl ⟨rfl, rfl⟩
  | @step _ mode' t u ts us htokens hturns h =>
      refine .inr ⟨t, ts, u, us, rfl, rfl, htokens, ?_⟩
      generalize t.kind = kind at hturns ⊢
      cases hturns with
      | inner hinner => exact .inl ⟨hinner, h⟩
      | closeTag hclose => exact .inr (.inl ⟨hclose, h⟩)
      | endOfTag =>
          refine .inr (.inr ⟨rfl, ?_⟩)
          cases h with
          | nil => exact ⟨rfl, rfl⟩
          | step _ hturns _ => cases hturns

/-- The end may be read as that of a tag. -/
theorem Ahead.of_eof {ts us : List Token} (h : P.Ahead mode ts us)
    (ht : ∀ t ∈ ts.head?, t.kind = .eof)
    {mode' : ScanMode} (hmode' : mode' = .text ∨ mode' = .tag) : P.Ahead mode' ts us := by
  cases h with
  | nil => exact .nil
  | @step _ _ t _ _ _ htokens hturns h =>
      have heof : t.kind = .eof := ht t rfl
      have hends : mode'.Turns t.kind .finished := by
        rw [heof]
        rcases hmode' with rfl | rfl
        · exact .endOfText
        · exact .endOfTag
      rw [heof] at hturns
      obtain rfl := hturns.finished_of_eof
      exact .step htokens hends h
  | @joint opening _ _ before _ _ _ _ _ hopening _ _ _ htexts =>
      cases before with
      | none => simp [hopening] at ht
      | some t => simp [(htexts.texts (some t) (by simp) t rfl).1] at ht

theorem Beside.consume (h : P.Beside mode begun s s') (htu : P.tokens t u) {mode' : ScanMode}
    (hrest : P.Ahead mode' rest rest') :
    P.Beside mode' True (s.consume t rest) (s'.consume u rest') := by
  have hkind := P.kind htu
  refine ⟨hrest, h.fault, h.complaints, fun _ => ⟨nofun, nofun⟩, ?_, fun hjoins => ?_⟩
  · unfold State.consume
    rw [hkind, P.value htu]
    dsimp only
    split
    · rfl
    · exact h.markers
  · unfold State.consume
    dsimp only
    split
    · next hclose => exact P.plain hjoins htu (.inr hclose)
    · exact h.plain hjoins

theorem Beside.weaken (h : P.Beside mode True s s') : P.Beside mode begun s s' :=
  ⟨h.ahead, h.fault, h.complaints, fun _ => h.begun trivial, h.markers, h.plain⟩

theorem Beside.beyond (h : P.Beside mode begun s s') : P.Stops s.beyond s'.beyond := by
  have hfault := h.fault
  unfold State.beyond
  cases hs : s.fault with
  | none =>
      rw [hs] at hfault
      generalize s'.fault = fault at hfault
      cases hfault
      exact .exhausted
  | some f =>
      rw [hs] at hfault
      generalize s'.fault = fault at hfault
      cases hfault with
      | some h => exact .lexical h

/-! ## Rules -/

namespace Pair

variable {p : Parser α} {q : Parser β} {f : α → Parser γ} {g : β → Parser δ}
  {R : α → β → State → State → Prop} {Q : γ → δ → State → State → Prop}

theorem pure {c : γ} {d : δ} (h : Q c d s s') : P.Pair s s' (Pure.pure c) (Pure.pure d) Q :=
  .ok rfl rfl h

theorem outOfFuel {q : Parser δ} : P.Pair s s' (throw .outOfFuel) q Q :=
  .first rfl trivial

theorem outOfFuel_second {p : Parser γ} : P.Pair s s' p (throw .outOfFuel) Q :=
  .second rfl trivial

theorem complain {problem : SyntaxProblem} {span span' : Span} (hs : P.Beside .tag True s s')
    (h : P.Complaints ⟨problem, span⟩ ⟨problem, span'⟩) :
    P.Pair s s' (complain problem span : Parser γ) (Parser.complain problem span' : Parser δ) Q :=
  .complaint rfl rfl h hs

/-- The same ends, seen from before. -/
theorem after {s₁ s₁' : State} {p₁ : Parser α} {q₁ : Parser β} (h : P.Pair s₁ s₁' p₁ q₁ R)
    (hp : p s = p₁ s₁) (hq : q s' = q₁ s₁') : P.Pair s s' p q R := by
  cases h with
  | ok hp₁ hq₁ h => exact .ok (hp.trans hp₁) (hq.trans hq₁) h
  | complaint hp₁ hq₁ hc hs => exact .complaint (hp.trans hp₁) (hq.trans hq₁) hc hs
  | stop hp₁ hq₁ he hs => exact .stop (hp.trans hp₁) (hq.trans hq₁) he hs
  | first hp₁ he => exact .first (hp.trans hp₁) he
  | second hq₁ he => exact .second (hq.trans hq₁) he

theorem bind (h : P.Pair s s' p q R)
    (hf : ∀ a b s₁ s₁', R a b s₁ s₁' → P.Pair s₁ s₁' (f a) (g b) Q) :
    P.Pair s s' (p >>= f) (q >>= g) Q := by
  cases h with
  | ok hp hq h => exact after (hf _ _ _ _ h) (bind_apply_of_ok hp) (bind_apply_of_ok hq)
  | complaint hp hq hc hs =>
      exact .complaint (bind_apply_of_error hp) (bind_apply_of_error hq) hc hs
  | stop hp hq he hs => exact .stop (bind_apply_of_error hp) (bind_apply_of_error hq) he hs
  | first hp he => exact .first (bind_apply_of_error hp) he
  | second hq he => exact .second (bind_apply_of_error hq) he

theorem map {f : α → γ} {g : β → δ} (h : P.Pair s s' p q R)
    (hf : ∀ a b s₁ s₁', R a b s₁ s₁' → Q (f a) (g b) s₁ s₁') :
    P.Pair s s' (f <$> p) (g <$> q) Q :=
  bind h fun a b s₁ s₁' hR => pure (hf a b s₁ s₁' hR)

/-- Steps that both succeed. -/
theorem step {a : α} {b : β} {s₁ s₁' : State} (hp : p s = .ok a s₁) (hq : q s' = .ok b s₁')
    (h : P.Pair s₁ s₁' (f a) (g b) Q) : P.Pair s s' (p >>= f) (q >>= g) Q :=
  after h (bind_apply_of_ok hp) (bind_apply_of_ok hq)

theorem get {f : State → Parser γ} {g : State → Parser δ} (h : P.Pair s s' (f s) (g s') Q) :
    P.Pair s s' (MonadState.get >>= f) (MonadState.get >>= g) Q :=
  step rfl rfl h

theorem beyond {p : Parser γ} {q : Parser δ} (h : P.Beside mode begun s s')
    (hp : p s = .error s.beyond s) (hq : q s' = .error s'.beyond s') : P.Pair s s' p q Q :=
  .stop hp hq h.beyond h.complaints

/-! ### Tokens -/

section

variable {f : Token → Parser γ} {g : Token → Parser δ}

theorem peek (h : P.Beside .tag begun s s')
    (hf : ∀ t rest u rest', s.unread = t :: rest → s'.unread = u :: rest' → P.tokens t u →
      P.Pair s s' (f t) (g u) Q) :
    P.Pair s s' (peek >>= f) (Parser.peek >>= g) Q := by
  rcases h.ahead.tag_cases with ⟨hs, hs'⟩ | ⟨t, rest, u, rest', hs, hs', htu, -⟩
  · have hpeek : ∀ {s : State}, s.unread = [] → Parser.peek s = .error s.beyond s := by
      intro s hs
      rw [Parser.peek, hs]
    exact beyond h (bind_apply_of_error (hpeek hs)) (bind_apply_of_error (hpeek hs'))
  · exact step (peek_eq hs) (peek_eq hs') (hf t rest u rest' hs hs' htu)

/-- The token after the next, in a tag. -/
theorem peekSecond (h : P.Beside .tag begun s s') (hs : s.unread = t :: rest)
    (ht : t.kind.isInner)
    (hf : ∀ u more u', rest = u :: more → P.tokens u u' → P.Pair s s' (f u) (g u') Q) :
    P.Pair s s' (peekSecond >>= f) (Parser.peekSecond >>= g) Q := by
  have hne : t.kind ≠ .eof := by
    intro heof
    rw [heof] at ht
    cases ht
  rcases h.ahead.tag_cases with ⟨hnil, -⟩ | ⟨t₁, more, t', more', hs₁, hs', htt, hcases⟩
  · cases hs.symm.trans hnil
  · obtain ⟨rfl, rfl⟩ := List.cons.inj (hs.symm.trans hs₁)
    have hmore : P.Ahead .tag rest more' := by
      rcases hcases with ⟨-, hmore⟩ | ⟨hclose, -⟩ | ⟨heof, -⟩
      · exact hmore
      · rcases hclose with hkind | hkind <;> simp [hkind, TokenKind.isInner] at ht
      · exact absurd heof hne
    have hne' : t'.kind ≠ .eof := by rwa [P.kind htt]
    rcases hmore.tag_cases with ⟨rfl, rfl⟩ | ⟨u, _, u', _, rfl, rfl, huu, -⟩
    · have hlast : ∀ {s : State} {t : Token}, s.unread = [t] → t.kind ≠ .eof →
          Parser.peekSecond s = .error s.beyond s := by
        intro s t hs ht
        simp only [Parser.peekSecond, hs, if_neg ht]
      exact beyond h (bind_apply_of_error (hlast hs hne)) (bind_apply_of_error (hlast hs' hne'))
    · exact step (peekSecond_eq hs hne) (peekSecond_eq hs' hne') (hf u _ u' rfl huu)

/-- A token that stands in a tag. -/
theorem advance (h : P.Beside .tag begun s s') (hs : s.unread = t :: rest)
    (ht : t.kind.isInner)
    (hf : ∀ u s₁ s₁', P.tokens t u → P.Beside .tag True s₁ s₁' → s₁.unread = rest →
      P.Pair s₁ s₁' (f t) (g u) Q) :
    P.Pair s s' (advance >>= f) (Parser.advance >>= g) Q := by
  have hne : t.kind ≠ .eof := by
    intro heof
    rw [heof] at ht
    cases ht
  rcases h.ahead.tag_cases with ⟨hnil, -⟩ | ⟨t₁, more, u, more', hs₁, hs', htu, hcases⟩
  · cases hs.symm.trans hnil
  · obtain ⟨rfl, rfl⟩ := List.cons.inj (hs.symm.trans hs₁)
    rcases hcases with ⟨-, hmore⟩ | ⟨hclose, -⟩ | ⟨heof, -⟩
    · exact step (advance_eq hs hne) (advance_eq hs' (by rwa [P.kind htu]))
        (hf u _ _ htu (h.consume htu hmore) rfl)
    · rcases hclose with hkind | hkind <;> simp [hkind, TokenKind.isInner] at ht
    · exact absurd heof hne

theorem complaints (htu : P.tokens t u) {problem : SyntaxProblem}
    (hproper : ∀ p, problem ≠ .lexical p) : P.Complaints ⟨problem, t.span⟩ ⟨problem, u.span⟩ :=
  ⟨rfl, hproper, t, u, htu, rfl, rfl⟩

theorem expect {kind : TokenKind} {problem : SyntaxProblem} (h : P.Beside .tag True s s')
    (hkind : kind.isInner) (hproper : ∀ p, problem ≠ .lexical p)
    (hf : ∀ t u s₁ s₁', P.tokens t u → P.Beside .tag True s₁ s₁' → P.Pair s₁ s₁' (f t) (g u) Q) :
    P.Pair s s' (expect kind problem >>= f) (Parser.expect kind problem >>= g) Q := by
  unfold Parser.expect
  rw [bind_assoc, bind_assoc]
  refine peek h fun t rest u rest' hs hs' htu => ?_
  rw [P.kind htu]
  by_cases ht : t.kind = kind
  · rw [if_pos ht, if_pos ht]
    exact advance h hs (ht ▸ hkind) fun u s₁ s₁' htu hs₁ _ => hf t u s₁ s₁' htu hs₁
  · rw [if_neg ht, if_neg ht]
    exact .complaint rfl rfl (complaints htu hproper) h

theorem expectKeyword {word : String} (h : P.Beside .tag True s s')
    (hf : ∀ t u s₁ s₁', P.tokens t u → P.Beside .tag True s₁ s₁' → P.Pair s₁ s₁' (f t) (g u) Q) :
    P.Pair s s' (expectKeyword word >>= f) (Parser.expectKeyword word >>= g) Q := by
  unfold Parser.expectKeyword
  rw [bind_assoc, bind_assoc]
  refine peek h fun t rest u rest' hs hs' htu => ?_
  rw [isKeyword htu]
  by_cases ht : t.isKeyword word
  · rw [if_pos ht, if_pos ht]
    have hinner : t.kind.isInner := by
      rw [Token.kind_eq_of_isKeyword ht]
      rfl
    exact advance h hs hinner fun u s₁ s₁' htu hs₁ _ => hf t u s₁ s₁' htu hs₁
  · rw [if_neg ht, if_neg ht]
    exact .complaint rfl rfl (complaints htu nofun) h

/-- The delimiter that closes a tag. -/
theorem close {kind : TokenKind} {problem : SyntaxProblem} (h : P.Beside .tag True s s')
    (hkind : kind = .blockEnd ∨ kind = .exprEnd) (hproper : ∀ p, problem ≠ .lexical p)
    (hf : ∀ t u s₁ s₁', P.Beside .text True s₁ s₁' → P.Pair s₁ s₁' (f t) (g u) Q) :
    P.Pair s s' (Parser.expect kind problem >>= f) (Parser.expect kind problem >>= g) Q := by
  unfold Parser.expect
  rw [bind_assoc, bind_assoc]
  rcases h.ahead.tag_cases with ⟨hs, hs'⟩ | ⟨t, rest, u, rest', hs, hs', htu, hcases⟩
  · refine peek h fun t _ _ _ hcons => ?_
    cases hs.symm.trans hcons
  · refine step (peek_eq hs) (peek_eq hs') ?_
    rw [P.kind htu]
    by_cases ht : t.kind = kind
    · rw [if_pos ht, if_pos ht]
      have hne : t.kind ≠ .eof := by
        rw [ht]
        rcases hkind with rfl | rfl <;> nofun
      have hrest : P.Ahead .text rest rest' := by
        rcases hcases with ⟨hinner, -⟩ | ⟨-, hrest⟩ | ⟨heof, -⟩
        · rw [ht] at hinner
          rcases hkind with rfl | rfl <;> cases hinner
        · exact hrest
        · exact absurd heof hne
      exact step (advance_eq hs hne) (advance_eq hs' (by rwa [P.kind htu]))
        (hf t u _ _ (h.consume htu hrest))
    · rw [if_neg ht, if_neg ht]
      exact .complaint rfl rfl (complaints htu hproper) h

end

/-! ### Spans -/

section

variable {f g : Span → Parser γ} {Q : γ → δ → State → State → Prop} {g : Span → Parser δ}

theorem checked {x y : Except ReversedSpan Span}
    (hf : ∀ span span', P.Pair s s' (f span) (g span') Q) :
    P.Pair s s' (checked x >>= f) (Parser.checked y >>= g) Q := by
  cases x with
  | error r => exact .first rfl trivial
  | ok span =>
      cases y with
      | error r => exact .second rfl trivial
      | ok span' => exact step rfl rfl (hf span span')

theorem join {a b a' b' : Span} (hf : ∀ span span', P.Pair s s' (f span) (g span') Q) :
    P.Pair s s' (join a b >>= f) (Parser.join a' b' >>= g) Q :=
  checked hf

theorem spanFrom (h : P.Beside mode True s s') {unit unit' : String} {start start' : Position}
    (hf : ∀ span span', P.Pair s s' (f span) (g span') Q) :
    P.Pair s s' (spanFrom unit start >>= f) (Parser.spanFrom unit' start' >>= g) Q := by
  obtain ⟨hprevious, hprevious'⟩ := h.begun trivial
  have hend : ∀ {s : State}, s.previous ≠ none → ∃ stop, Parser.previousEnd s = .ok stop s := by
    intro s hs
    obtain ⟨t, ht⟩ := Option.ne_none_iff_exists'.mp hs
    exact ⟨_, previousEnd_eq (State.lastEnd?_of_previous ht)⟩
  obtain ⟨stop, hstop⟩ := hend hprevious
  obtain ⟨stop', hstop'⟩ := hend hprevious'
  unfold Parser.spanFrom
  rw [bind_assoc, bind_assoc]
  exact step hstop hstop' (checked hf)

end

/-! ### Complaints -/

theorem note {c c' : Complaint} (h : P.Beside mode begun s s') (hc : P.Complaints c c')
    {f : Unit → Parser γ} {g : Unit → Parser δ}
    (hf : ∀ s₁ s₁', P.Beside mode begun s₁ s₁' → s₁.unread = s.unread →
      P.Pair s₁ s₁' (f ()) (g ()) Q) :
    P.Pair s s' (note c >>= f) (Parser.note c' >>= g) Q :=
  step rfl rfl (hf _ _ ⟨h.ahead, h.fault, List.rel_append h.complaints (.cons hc .nil), h.begun,
    h.markers, h.plain⟩ rfl)

/-- Behind what is skipped of a tag both stand between tags. -/
theorem skipTag (h : P.Beside .tag True s s') :
    P.Pair s s' skipTag Parser.skipTag fun _ _ s₁ s₁' => P.Beside .text True s₁ s₁' := by
  suffices hfrom : ∀ (ts us : List Token) (s s' : State), P.Beside .tag True s s' →
      s.unread = ts → s'.unread = us →
      P.Pair s s' (skipTagFrom ts) (skipTagFrom us)
        fun _ _ s₁ s₁' => P.Beside .text True s₁ s₁' from
    (hfrom s.unread s'.unread s s' h rfl rfl).after rfl rfl
  intro ts
  induction ts with
  | nil =>
      intro us s s' h hs hs'
      rcases h.ahead.tag_cases with ⟨-, hnil⟩ | ⟨t, rest, u, rest', hcons, -⟩
      · obtain rfl : us = [] := hs'.symm.trans hnil
        exact beyond h rfl rfl
      · cases hs.symm.trans hcons
  | cons t rest ih =>
      intro us s s' h hs hs'
      rcases h.ahead.tag_cases with ⟨hnil, -⟩ | ⟨t₁, more, u, rest', hs₁, hs₁', htu, hcases⟩
      · cases hs.symm.trans hnil
      · obtain ⟨rfl, rfl⟩ := List.cons.inj (hs.symm.trans hs₁)
        obtain rfl : us = u :: rest' := hs'.symm.trans hs₁'
        have hkind := P.kind htu
        have hstep : ∀ {s : State} {t : Token} {rest : List Token}, t.kind ≠ .eof →
            skipTagFrom (t :: rest) s = if t.kind.isCloser then .ok () (s.consume t rest)
              else skipTagFrom rest (s.consume t rest) := by
          intro s t rest ht
          rw [skipTagFrom, if_neg ht]
        rcases hcases with ⟨hinner, hrest⟩ | ⟨hclose, hrest⟩ | ⟨heof, rfl, rfl⟩
        · have hne : t.kind ≠ .eof := by
            intro heof
            rw [heof] at hinner
            cases hinner
          have hopen : ¬ t.kind.isCloser := by
            intro hcloser
            rw [isInner_of_isCloser hcloser] at hinner
            cases hinner
          refine (ih rest' _ _ (h.consume htu hrest) rfl rfl).after ?_ ?_
          · rw [hstep hne, if_neg hopen]
          · rw [hstep (by rwa [hkind]), hkind, if_neg hopen]
        · have hne : t.kind ≠ .eof := by
            rcases hclose with hkind | hkind <;> simp [hkind]
          have hcloser : t.kind.isCloser := by
            rcases hclose with hkind | hkind <;> simp [hkind, TokenKind.isCloser]
          refine .ok (a := ()) (b := ()) ?_ ?_ (h.consume htu hrest)
          · rw [hstep hne, if_pos hcloser]
          · rw [hstep (by rwa [hkind]), hkind, if_pos hcloser]
        · have hends : P.Beside .text True s s' := by
            refine ⟨h.ahead.of_eof ?_ (.inl rfl), h.fault, h.complaints, h.begun, h.markers,
              h.plain⟩
            simp [hs, heof]
          refine .ok (a := ()) (b := ()) ?_ ?_ hends
          · rw [skipTagFrom, if_pos heof]
          · rw [skipTagFrom, if_pos (hkind.trans heof)]

theorem recover {c c' : Complaint} (h : P.Beside .tag True s s') (hc : P.Complaints c c') :
    P.Pair s s' (recover c) (Parser.recover c') fun _ _ s₁ s₁' => P.Beside .text True s₁ s₁' :=
  note h hc fun _ _ hs₁ _ => skipTag hs₁

/-- Where one recovers the other does. -/
theorem recovering (h : P.Pair s s' p q R)
    (hR : ∀ a b s₁ s₁', R a b s₁ s₁' → P.Beside .text True s₁ s₁') :
    P.Pair s s' (recovering p) (Parser.recovering q) fun o o' s₁ s₁' =>
      P.Beside .text True s₁ s₁' ∧
        (o = none ∧ o' = none ∨ ∃ a b, o = some a ∧ o' = some b ∧ R a b s₁ s₁') := by
  cases h with
  | ok hp hq h =>
      exact .ok (tryCatch_apply_of_ok (bind_apply_of_ok hp))
        (tryCatch_apply_of_ok (bind_apply_of_ok hq))
        ⟨hR _ _ _ _ h, .inr ⟨_, _, rfl, rfl, h⟩⟩
  | complaint hp hq hc hs =>
      refine after ?_ (tryCatch_apply_of_error (bind_apply_of_error hp))
        (tryCatch_apply_of_error (bind_apply_of_error hq))
      exact bind (recover hs hc) fun _ _ _ _ hs₁ => pure ⟨hs₁, .inl ⟨rfl, rfl⟩⟩
  | stop hp hq he hs =>
      have hno : ∀ {e e' : Stop}, P.Stops e e' →
          (∀ c, e ≠ .complaint c) ∧ ∀ c, e' ≠ .complaint c := by
        rintro _ _ ⟨⟩ <;> exact ⟨nofun, nofun⟩
      exact .stop (recovering_eq_error hp (hno he).1) (recovering_eq_error hq (hno he).2) he hs
  | first hp he => exact .first (recovering_eq_error hp (by rintro c rfl; exact he)) he
  | second hq he => exact .second (recovering_eq_error hq (by rintro c rfl; exact he)) he

end Pair

end Pairing

end TemplateCompiler.Parser
