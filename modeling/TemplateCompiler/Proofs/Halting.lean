import TemplateCompiler.Proofs.Reading

/-!
# Parsers halt

On tokens with an end token among them a parser halts, whatever kinds the tokens have and wherever
they stand. It never looks behind the end token, so nothing that lies there can make a difference,
and it has at most as many tokens ahead of the end as before.

`Halts x v p q Q` says this of two runs at once, of `p` and of `q`, that differ in what lies behind
the end token. What both know is a `View`. That there are two parsers is for the fuel, which is
computed from all of the tokens, those that are never looked at included: `p` and `q` are mostly one
function with two amounts of it.
-/

namespace TemplateCompiler.Parser

variable {α β σ : Type}

/-! ## Views -/

/-- What lies behind an end token. -/
structure Beyond where
  rest : List Token
  fault : Option LexicalFault

/-- Two ways in which tokens may go on behind an end token. -/
structure Sides where
  last : Token
  isEnd : last.kind = .eof
  first : Beyond
  second : Beyond

/-- What a parser can know of a state with an end token. -/
structure View where
  /-- The tokens ahead of the end token. -/
  ahead : List Token
  proper : ∀ t ∈ ahead, t.kind ≠ .eof
  complaints : List Complaint := []
  previous : Option Token := none
  leftMarker : Option String := none

namespace View

/-- How many tokens are left ahead of the end token. -/
def left (v : View) : Nat :=
  v.ahead.length

def state (v : View) (last : Token) (b : Beyond) : State where
  unread := v.ahead ++ last :: b.rest
  fault := b.fault
  complaints := v.complaints
  previous := v.previous
  leftMarker := v.leftMarker

def next (v : View) (x : Sides) : Token :=
  v.ahead.headD x.last

/-- The view behind the next token. The end token stays. -/
def past (v : View) (x : Sides) : View where
  ahead := v.ahead.tail
  proper t ht := v.proper t (List.mem_of_mem_tail ht)
  complaints := v.complaints
  previous := some (v.next x)
  leftMarker := if (v.next x).kind.isCloser then some (v.next x).value else v.leftMarker

def note (v : View) (c : Complaint) : View :=
  { v with complaints := v.complaints ++ [c] }

def unmark (v : View) : View :=
  { v with leftMarker := none }

variable {x : Sides} {v v' : View} {last : Token} {b : Beyond}

theorem next_kind (h : 0 < v.left) : (v.next x).kind ≠ .eof := by
  obtain ⟨t, rest, hv⟩ := List.exists_cons_of_length_pos h
  rw [next, hv, List.headD_cons]
  exact v.proper t (by simp [hv])

/-- The end token is next only if no other token is left. -/
theorem left_eq_zero (h : (v.next x).kind = .eof) : v.left = 0 :=
  Nat.eq_zero_of_not_pos fun hpos => next_kind hpos h

theorem past_left_le : (v.past x).left ≤ v.left := by
  simp [left, past]

theorem past_left_lt (h : (v.next x).kind ≠ .eof) : (v.past x).left < v.left := by
  have hne : v.ahead ≠ [] := by
    intro hnil
    rw [next, hnil, List.headD_nil] at h
    exact h x.isEnd
  have hpos := List.length_pos_iff.mpr hne
  simp only [left, past, List.length_tail]
  omega

theorem length_unread : (v.state last b).unread.length = v.left + b.rest.length + 1 := by
  simp [state, left, Nat.add_assoc]

theorem past_suffix : (v.past x).ahead <:+ v.ahead :=
  List.tail_suffix v.ahead

end View

/-! ## Halting -/

/-- The stops that a parser comes to by itself: something is wrong with the tokens it has read. -/
def Stop.Answers : Stop → Prop
  | .complaint _ | .badNumber _ | .reversed _ => True
  | .lexical _ | .exhausted | .outOfFuel => False

/-- From one view both runs come to the same result, of which `Q` holds, or to the same stop. They
take tokens off the front of those ahead, but never the end token. -/
inductive Halts (x : Sides) (v : View) (p q : Parser α) (Q : α → View → Prop) : Prop
  | ok {a : α} {v' : View} (hp : p (v.state x.last x.first) = .ok a (v'.state x.last x.first))
      (hq : q (v.state x.last x.second) = .ok a (v'.state x.last x.second))
      (ho : v'.ahead <:+ v.ahead) (h : Q a v')
  | stop {e : Stop} {v' : View}
      (hp : p (v.state x.last x.first) = .error e (v'.state x.last x.first))
      (hq : q (v.state x.last x.second) = .error e (v'.state x.last x.second))
      (ho : v'.ahead <:+ v.ahead) (he : e.Answers)

namespace Halts

variable {x : Sides} {v : View} {p q : Parser α} {f g : α → Parser β} {P Q : α → View → Prop}
  {R : β → View → Prop}

theorem imp (h : Halts x v p q P) (hQ : ∀ a v', v'.left ≤ v.left → P a v' → Q a v') :
    Halts x v p q Q := by
  cases h with
  | ok hp hq ho ha => exact .ok hp hq ho (hQ _ _ ho.length_le ha)
  | stop hp hq ho he => exact .stop hp hq ho he

theorem forget (h : Halts x v p q Q) : Halts x v p q fun _ _ => True :=
  h.imp fun _ _ _ _ => trivial

theorem pure {a : α} (h : Q a v) : Halts x v (Pure.pure a) (Pure.pure a) Q :=
  .ok rfl rfl (List.suffix_refl _) h

theorem throw {e : Stop} (h : e.Answers) :
    Halts x v (MonadExcept.throw e : Parser α) (MonadExcept.throw e) Q :=
  .stop rfl rfl (List.suffix_refl _) h

theorem complain {problem : SyntaxProblem} {span : Span} :
    Halts x v (Parser.complain problem span : Parser α) (Parser.complain problem span) Q :=
  throw trivial

theorem bind (hp : Halts x v p q P)
    (hf : ∀ a v', v'.left ≤ v.left → P a v' → Halts x v' (f a) (g a) R) :
    Halts x v (p >>= f) (q >>= g) R := by
  cases hp with
  | ok hp hq ho ha =>
      cases hf _ _ ho.length_le ha with
      | ok hp' hq' ho' h =>
          exact .ok ((bind_apply_of_ok hp).trans hp') ((bind_apply_of_ok hq).trans hq')
            (ho'.trans ho) h
      | stop hp' hq' ho' he =>
          exact .stop ((bind_apply_of_ok hp).trans hp') ((bind_apply_of_ok hq).trans hq')
            (ho'.trans ho) he
  | stop hp hq ho he => exact .stop (bind_apply_of_error hp) (bind_apply_of_error hq) ho he

theorem map {m : α → β} (hp : Halts x v p q P)
    (hm : ∀ a v', v'.left ≤ v.left → P a v' → R (m a) v') : Halts x v (m <$> p) (m <$> q) R :=
  bind hp fun a v' hle ha => pure (hm a v' hle ha)

/-- A last step, by a rule for steps that are followed by others. -/
theorem of_bind (h : Halts x v (p >>= Pure.pure) (q >>= Pure.pure) Q) : Halts x v p q Q := by
  rwa [bind_pure, bind_pure] at h

/-- A step that is known to succeed. -/
theorem step {a : α} {v' : View} (hp : p (v.state x.last x.first) = .ok a (v'.state x.last x.first))
    (hq : q (v.state x.last x.second) = .ok a (v'.state x.last x.second))
    (ho : v'.ahead <:+ v.ahead) (hf : Halts x v' (f a) (g a) R) :
    Halts x v (p >>= f) (q >>= g) R :=
  bind (P := fun b w => b = a ∧ w = v') (.ok hp hq ho ⟨rfl, rfl⟩)
    fun _ _ _ ⟨ha, hv⟩ => ha ▸ hv ▸ hf

/-! ### Single tokens -/

section

variable {f g : Token → Parser β}

theorem peek (h : Halts x v (f (v.next x)) (g (v.next x)) R) :
    Halts x v (peek >>= f) (peek >>= g) R := by
  have hpeek : ∀ b, Parser.peek (v.state x.last b) = .ok (v.next x) (v.state x.last b) := by
    intro b
    unfold Parser.peek View.state View.next
    cases v.ahead <;> rfl
  exact step (hpeek _) (hpeek _) (List.suffix_refl _) h

theorem peekSecond (h : ∀ t, Halts x v (f t) (g t) R) :
    Halts x v (peekSecond >>= f) (peekSecond >>= g) R := by
  have hpeek : ∃ t, ∀ b, Parser.peekSecond (v.state x.last b) = .ok t (v.state x.last b) := by
    unfold Parser.peekSecond View.state
    cases hv : v.ahead with
    | nil => exact ⟨x.last, fun b => by simp [x.isEnd]⟩
    | cons t rest =>
        have ht : t.kind ≠ .eof := v.proper t (by simp [hv])
        cases rest with
        | nil => exact ⟨x.last, fun b => by simp [ht]⟩
        | cons u more => exact ⟨u, fun b => by simp [ht]⟩
  obtain ⟨t, ht⟩ := hpeek
  exact step (ht _) (ht _) (List.suffix_refl _) (h t)

theorem advance (h : Halts x (v.past x) (f (v.next x)) (g (v.next x)) R) :
    Halts x v (advance >>= f) (advance >>= g) R := by
  have hadvance : ∀ b, Parser.advance (v.state x.last b) =
      .ok (v.next x) ((v.past x).state x.last b) := by
    intro b
    obtain ⟨ahead, hproper, _, _, _⟩ := v
    cases ahead with
    | nil => simp [Parser.advance, View.state, View.past, View.next, State.consume, x.isEnd]
    | cons t rest =>
        have ht : t.kind ≠ .eof := hproper t List.mem_cons_self
        simp [Parser.advance, View.state, View.past, View.next, State.consume, ht]
  exact step (hadvance _) (hadvance _) View.past_suffix h

/-- An expected token is one that is taken, so it is not the end token. -/
theorem expect {kind : TokenKind} {problem : SyntaxProblem} (hkind : kind ≠ .eof)
    (h : ∀ t v', v'.left < v.left → Halts x v' (f t) (g t) R) :
    Halts x v (expect kind problem >>= f) (expect kind problem >>= g) R := by
  refine bind (P := fun _ v' => v'.left < v.left) ?_ fun t v' _ hlt => h t v' hlt
  refine peek ?_
  split
  · next hnext =>
      refine of_bind (advance (pure ?_))
      exact View.past_left_lt (by rwa [hnext])
  · exact complain

theorem expectKeyword {word : String} (h : ∀ t v', v'.left < v.left → Halts x v' (f t) (g t) R) :
    Halts x v (expectKeyword word >>= f) (expectKeyword word >>= g) R := by
  refine bind (P := fun _ v' => v'.left < v.left) ?_ fun t v' _ hlt => h t v' hlt
  refine peek ?_
  split
  · next hword =>
      refine of_bind (advance (pure ?_))
      exact View.past_left_lt (by simp [Token.kind_eq_of_isKeyword hword])
  · exact complain

end

/-! ### Steps that leave the tokens alone -/

theorem get {f g : State → Parser β}
    (h : Halts x v (f (v.state x.last x.first)) (g (v.state x.last x.second)) R) :
    Halts x v (MonadState.get >>= f) (MonadState.get >>= g) R := by
  cases h with
  | ok hp hq ho ha => exact .ok hp hq ho ha
  | stop hp hq ho he => exact .stop hp hq ho he

theorem note {c : Complaint} {f g : Unit → Parser β} (h : Halts x (v.note c) (f ()) (g ()) R) :
    Halts x v (note c >>= f) (note c >>= g) R := by
  have hnote : ∀ b, Parser.note c (v.state x.last b) = .ok () ((v.note c).state x.last b) :=
    fun _ => rfl
  exact step (hnote _) (hnote _) (List.suffix_refl v.ahead) h

theorem unmark {f g : PUnit → Parser β} (h : Halts x v.unmark (f ⟨⟩) (g ⟨⟩) R) :
    Halts x v (modify (fun s : State => { s with leftMarker := none }) >>= f)
      (modify (fun s : State => { s with leftMarker := none }) >>= g) R := by
  have hunmark : ∀ b, (modify fun s : State => { s with leftMarker := none } : Parser PUnit)
      (v.state x.last b) = .ok ⟨⟩ (v.unmark.state x.last b) := fun _ => rfl
  exact step (hunmark _) (hunmark _) (List.suffix_refl v.ahead) h

theorem checked (e : Except ReversedSpan α) :
    Halts x v (checked e) (Parser.checked e) fun _ v' => v' = v := by
  cases e with
  | ok a => exact pure rfl
  | error r => exact throw trivial

theorem join {a b : Span} {f g : Span → Parser β} (h : ∀ span, Halts x v (f span) (g span) R) :
    Halts x v (join a b >>= f) (join a b >>= g) R :=
  bind (checked _) fun span _ _ hv => hv ▸ h span

theorem previousEnd : Halts x v previousEnd previousEnd fun _ v' => v' = v := by
  refine get ?_
  obtain ⟨ahead, hproper, complaints, previous, leftMarker⟩ := v
  cases previous with
  | some t => exact pure rfl
  | none => exact peek (f := fun t => Pure.pure t.span.start) (pure rfl)

theorem spanFrom {unit : String} {start : Position} {f g : Span → Parser β}
    (h : ∀ span, Halts x v (f span) (g span) R) :
    Halts x v (spanFrom unit start >>= f) (spanFrom unit start >>= g) R := by
  refine bind (P := fun _ v' => v' = v) (bind previousEnd ?_) fun span _ _ hv => hv ▸ h span
  rintro stop _ - rfl
  exact checked _

end Halts

/-! ## Passes -/

/-- What a pass of a loop comes to. -/
inductive Pass (σ α : Type) where
  /-- The loop goes on with this. -/
  | again (s : σ)
  | done (a : α)

namespace Pass

def andThen (loop : σ → Parser α) : Pass σ α → Parser α
  | .again s => loop s
  | .done a => pure a

/-- A pass that is not the last has taken a token. -/
def Progresses (v : View) (Q : α → View → Prop) : Pass σ α → View → Prop
  | .again _, v' => v'.left < v.left
  | .done a, v' => Q a v'

end Pass

/-- A loop is one pass after another, and each pass but the last takes a token. With `n` tokens left
`enough n` is enough fuel for a pass. -/
structure Loops (loop : Nat → σ → Parser α) (pass : Nat → σ → Parser (Pass σ α))
    (enough : Nat → Nat) : Prop where
  unrolls : ∀ fuel s, loop (fuel + 1) s = pass fuel s >>= Pass.andThen (loop fuel)
  progresses : ∀ (x : Sides) (v : View) (fuel fuel' : Nat) (s : σ), enough v.left ≤ min fuel fuel' →
    Halts x v (pass fuel s) (pass fuel' s) (Pass.Progresses v fun _ _ => True)

/-- One token of the rest of a tag. -/
def skipPass : Parser (Pass Unit Unit) := do
  let t ← peek
  if t.kind = .eof then return .done ()
  else
    let _ ← advance
    return if t.kind.isCloser then .done () else .again ()

theorem skipTag_eq : skipTag = skipPass >>= Pass.andThen fun _ => skipTag := by
  funext s
  show skipTagFrom s.unread s = _
  cases hs : s.unread with
  | nil =>
      have hpass : skipPass s = .error s.beyond s := by
        rw [skipPass, bind_apply_of_error]
        rw [peek, hs]
      exact (bind_apply_of_error hpass).symm
  | cons t rest =>
      by_cases hend : t.kind = .eof
      · have hpass : skipPass s = .ok (.done ()) s := by
          rw [skipPass, bind_apply_of_ok (peek_eq hs), if_pos hend]
          rfl
        rw [skipTagFrom, if_pos hend, bind_apply_of_ok hpass]
        rfl
      · have hpass : skipPass s =
            .ok (if t.kind.isCloser then .done () else .again ()) (s.consume t rest) := by
          rw [skipPass, bind_apply_of_ok (peek_eq hs), if_neg hend,
            bind_apply_of_ok (advance_eq hs hend)]
          rfl
        rw [skipTagFrom, if_neg hend, bind_apply_of_ok hpass]
        by_cases hclose : t.kind.isCloser
        · simp only [if_pos hclose]
          rfl
        · simp only [if_neg hclose]
          rfl

namespace Halts

variable {x : Sides} {v : View} {Q : α → View → Prop}

theorem andThen {pass pass' : Parser (Pass σ α)} {loop loop' : σ → Parser α}
    (hpass : Halts x v pass pass' (Pass.Progresses v Q))
    (hloop : ∀ s v', v'.left < v.left → Halts x v' (loop s) (loop' s) Q) :
    Halts x v (pass >>= Pass.andThen loop) (pass' >>= Pass.andThen loop') Q := by
  refine bind hpass ?_
  rintro (s | a) v' - h
  · exact hloop s v' h
  · exact pure h

theorem forgetDone {pass pass' : Parser (Pass σ α)}
    (h : Halts x v pass pass' (Pass.Progresses v Q)) :
    Halts x v pass pass' (Pass.Progresses v fun _ _ => True) := by
  refine h.imp fun r _ _ hr => ?_
  cases r with
  | again s => exact hr
  | done a => trivial

/-- A loop halts, if a pass with fewer tokens left needs less fuel. -/
theorem loop {loop : Nat → σ → Parser α} {pass : Nat → σ → Parser (Pass σ α)} {enough : Nat → Nat}
    (h : Loops loop pass enough) (hmono : ∀ {m n}, m < n → enough m < enough n) (fuel fuel' : Nat)
    (s : σ) (hfuel : enough v.left < min fuel fuel') :
    Halts x v (loop fuel s) (loop fuel' s) fun _ _ => True := by
  induction fuel generalizing fuel' s v with
  | zero => omega
  | succ fuel ih =>
      cases fuel' with
      | zero => omega
      | succ fuel' =>
          rw [h.unrolls, h.unrolls]
          refine andThen (h.progresses x v fuel fuel' s (by omega)) fun s v' hlt => ih fuel' s ?_
          have hless := hmono hlt
          omega

/-! ### Recovery -/

theorem skipPass : Halts x v skipPass skipPass
    (Pass.Progresses v fun _ v' => v'.left = 0 ∨ v'.left < v.left) := by
  refine peek ?_
  by_cases hend : (v.next x).kind = .eof
  · simp only [if_pos hend]
    exact pure (.inl (View.left_eq_zero hend))
  · have hlt := View.past_left_lt hend
    simp only [if_neg hend]
    refine advance (pure ?_)
    by_cases hclose : (v.next x).kind.isCloser
    · rw [if_pos hclose]
      exact .inr hlt
    · rw [if_neg hclose]
      exact hlt

/-- Skipping leads at least one token further, unless there is none. -/
theorem skipTag (v : View) : Halts x v skipTag skipTag fun _ v' =>
    v'.left = 0 ∨ v'.left < v.left := by
  induction hn : v.left using Nat.strongRecOn generalizing v with
  | ind n ih =>
      subst hn
      rw [skipTag_eq]
      refine andThen skipPass fun _ v' hlt => (ih _ hlt v' rfl).imp fun _ v'' _ h => ?_
      omega

theorem recover {c : Complaint} : Halts x v (recover c) (recover c) fun _ v' =>
    v'.left = 0 ∨ v'.left < v.left :=
  note (skipTag (v.note c))

theorem tryCatch {p q : Parser α} {handle handle' : Stop → Parser α} (hp : Halts x v p q Q)
    (hh : ∀ e v', e.Answers → v'.left ≤ v.left → Halts x v' (handle e) (handle' e) Q) :
    Halts x v (MonadExcept.tryCatch p handle) (MonadExcept.tryCatch q handle') Q := by
  cases hp with
  | ok hp hq ho ha => exact .ok (tryCatch_apply_of_ok hp) (tryCatch_apply_of_ok hq) ho ha
  | stop hp hq ho he =>
      cases hh _ _ he ho.length_le with
      | ok hp' hq' ho' ha =>
          exact .ok ((tryCatch_apply_of_error hp).trans hp')
            ((tryCatch_apply_of_error hq).trans hq') (ho'.trans ho) ha
      | stop hp' hq' ho' he' =>
          exact .stop ((tryCatch_apply_of_error hp).trans hp')
            ((tryCatch_apply_of_error hq).trans hq') (ho'.trans ho) he'

/-- Recovering from a complaint takes a token, even if none was taken before it. -/
theorem recovering {p q : Parser α} (h : Halts x v p q Q) :
    Halts x v (recovering p) (recovering q) fun o v' => match o with
      | some a => Q a v'
      | none => v'.left = 0 ∨ v'.left < v.left := by
  refine tryCatch (map h fun _ _ _ ha => ha) fun e v' he hle => ?_
  cases e with
  | complaint c =>
      refine bind recover fun _ v'' _ h => pure ?_
      show v''.left = 0 ∨ v''.left < v.left
      omega
  | badNumber f => exact throw trivial
  | reversed r => exact throw trivial
  | lexical f => exact he.elim
  | exhausted => exact he.elim
  | outOfFuel => exact he.elim

end Halts

end TemplateCompiler.Parser
