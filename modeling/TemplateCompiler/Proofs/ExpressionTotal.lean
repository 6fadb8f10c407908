import TemplateCompiler.Proofs.ExpressionGrammar
import TemplateCompiler.Proofs.Onward

/-!
# Expressions end

Reading an expression from tokens in order ends with an expression or at a token that is wrong. At
most one level after the other is entered before a token is read, and sixteen units of fuel for each
token ahead pay for them. An expression lies between the place reached before it and the one reached
behind it, so whatever spans are joined stand in order.
-/

namespace TemplateCompiler.Parser

open Template (Expr)

/-- The expression lies behind `start`, and the parser has reached its end. -/
structure Placed (start : Nat) (e : Expr) (s : State) : Prop where
  start_le : start ≤ e.span.start.offset
  forward : e.span.start.offset ≤ e.span.stop.offset
  stop_le : e.span.stop.offset ≤ s.reached

/-- An expression that was read from `s` on, and not from nothing. -/
def ReadFrom (s : State) (e : Expr) (s' : State) : Prop :=
  Placed s.reached e s' ∧ s'.unread.length < s.unread.length

/-- The parenthesis that ends arguments lies behind `start`, and the parser stands behind it. -/
structure Closed (start : Nat) (close : Token) (s : State) : Prop where
  start_le : start ≤ close.span.start.offset
  forward : close.span.start.offset ≤ close.span.stop.offset
  reached : s.reached = close.span.stop.offset

/-- What each function needs to end, and where what it reads lies. -/
structure ExpressionsEnd (fuel : Nat) : Prop where
  expressionAt : ∀ (level : Level) (s : State), 16 * s.unread.length + 10 ≤ fuel + level.rank →
    Moves .tag s (expressionAt fuel level) (ReadFrom s)
  infixes : ∀ (level : Level) (left : Expr) (start : Nat) (s : State), Placed start left s →
    16 * s.unread.length + 1 ≤ fuel → Moves .tag s (infixes fuel level left) (Placed start)
  applications : ∀ (e : Expr) (start : Nat) (s : State), Placed start e s →
    16 * s.unread.length + 1 ≤ fuel → Moves .tag s (applications fuel e) (Placed start)
  atom : ∀ s : State, 16 * s.unread.length + 1 ≤ fuel → Moves .tag s (atom fuel) (ReadFrom s)
  argumentsFrom : ∀ (args : List Expr) (named : List (NamedArgument Expr)) (s : State),
    16 * s.unread.length + 11 ≤ fuel →
    Moves .tag s (argumentsFrom fuel args named) fun a s' => Closed s.reached a.close s'
  filterArguments : ∀ (args : List Expr) (s : State), 16 * s.unread.length + 11 ≤ fuel →
    Moves .tag s (filterArguments fuel args) fun r s' => Closed s.reached r.2 s'

theorem expressionsEnd_zero : ExpressionsEnd 0 where
  expressionAt level s h := by
    have hrank := level.rank_le
    omega
  infixes level left start s hl h := by omega
  applications e start s he h := by omega
  atom s h := by omega
  argumentsFrom args named s h := by omega
  filterArguments args s h := by omega

theorem Level.operator?_kind {level : Level} {t : Token} {op : BinaryOperator}
    (h : level.operator? t = some op) : t.kind = .keyword ∨ t.kind = .operator := by
  unfold Level.operator? at h
  split at h
  · next hkind => exact .inl hkind
  · next hkind => exact .inr hkind
  · cases h

/-- An operator is read, or nothing is. -/
theorem nextOperator?_moves (level : Level) (s : State) :
    Moves .tag s (nextOperator? level) fun o s' =>
      (o = none → s' = s) ∧ (o ≠ none → s'.unread.length < s.unread.length) := by
  refine Moves.peek fun t rest hs => ?_
  split
  · next op hop =>
      have hkind := Level.operator?_kind hop
      refine Moves.advance hs (by rcases hkind with h | h <;> simp [h])
        (by rcases hkind with h | h <;> rw [h] <;> rfl) fun s' htook => Moves.pure ?_
      exact ⟨nofun, fun _ => htook.length_lt⟩
  · have hnone : Moves .tag s (pure none) fun (o : Option BinaryOperator) s' =>
        (o = none → s' = s) ∧ (o ≠ none → s'.unread.length < s.unread.length) :=
      Moves.pure ⟨fun _ => rfl, fun h => absurd rfl h⟩
    split
    · next hnot =>
        rw [Bool.and_eq_true] at hnot
        have hkind := Token.kind_eq_of_isKeyword hnot.2
        refine Moves.peekSecond hs (by simp [hkind]) fun u more hrest => ?_
        split
        · next hin =>
            have hkind' := Token.kind_eq_of_isKeyword hin
            refine Moves.advance hs (by simp [hkind]) (by rw [hkind]; rfl) fun s₁ htook => ?_
            have hs₁ : s₁.unread = u :: more := by
              rw [← hrest]
              exact (List.cons.inj (htook.unread.symm.trans hs)).2
            refine Moves.advance hs₁ (by simp [hkind']) (by rw [hkind']; rfl) fun s₂ htook₂ => ?_
            have hlt := htook.length_lt
            have hlt₂ := htook₂.length_lt
            exact Moves.pure ⟨nofun, fun _ => by omega⟩
        · exact hnone
    · exact hnone

/-- A prefix operator and its operand. -/
theorem unary_moves {s s' s'' : State} {t : Token} {op : UnaryOperator} {operand : Expr}
    (htook : s.Took t s') (h : ReadFrom s' operand s'') :
    Moves .tag s'' (do return .unary op operand (← join t.span operand.span)) (fun e s''' =>
      ReadFrom s e s''') := by
  obtain ⟨⟨hstart, hforward, hstop⟩, hlt⟩ := h
  have hlt' := htook.length_lt
  have hstart' := htook.start
  have hforward' := htook.forward
  rw [htook.reached] at hstart
  refine Moves.join (by omega) fun span hspan hspan' => Moves.pure ⟨⟨?_, ?_, ?_⟩, by omega⟩
  · rw [Expr.span, hspan]
    exact hstart'
  · rw [Expr.span, hspan, hspan']
    omega
  · rw [Expr.span, hspan']
    exact hstop

section

variable {fuel : Nat} (ih : ExpressionsEnd fuel)

include ih

theorem expressionAt_moves {level : Level} {s : State}
    (h : 16 * s.unread.length + 10 ≤ fuel + 1 + level.rank) :
    Moves .tag s (expressionAt (fuel + 1) level) (ReadFrom s) := by
  have hoperands : ∀ level : Level, level ≠ .application →
      16 * s.unread.length + 10 ≤ fuel + 1 + level.rank →
      Moves .tag s (do
        let left ← Parser.expressionAt fuel level.tighter
        Parser.infixes fuel level left) (ReadFrom s) := by
    intro level hlevel h
    have hrank := (Level.before_iff.mpr ⟨hlevel, rfl⟩).rank_eq
    refine Moves.bind (ih.expressionAt level.tighter s (by omega)) fun left s' _ ⟨hl, hlt⟩ => ?_
    have hle := level.rank_le
    refine (ih.infixes level left s.reached s' hl (by omega)).imp fun e s'' ho he => ⟨he, ?_⟩
    have hlength := ho.length_le
    omega
  have hlast : ∀ level : Level, 16 * s.unread.length + 10 ≤ fuel + level.rank →
      Moves .tag s (Parser.expressionAt fuel level) (ReadFrom s) :=
    fun level h => ih.expressionAt level s h
  cases level with
  | negation =>
      have hrank : Level.negation.rank + 1 = Level.comparison.rank := by decide
      rw [expressionAt]
      refine Moves.peek fun t rest hs => ?_
      split
      · next ht =>
          have hkind := Token.kind_eq_of_isKeyword ht
          refine Moves.advance hs (by simp [hkind]) (by rw [hkind]; rfl) fun s' htook => ?_
          have hlt := htook.length_lt
          refine Moves.bind (ih.expressionAt .negation s' (by omega)) fun e s'' _ he => ?_
          exact unary_moves htook he
      · exact hlast .comparison (by omega)
  | sign =>
      have hrank : Level.sign.rank + 1 = Level.application.rank := by decide
      rw [expressionAt]
      refine Moves.peek fun t rest hs => ?_
      split
      · next op hop =>
          have hkind : t.kind = .operator := by
            unfold signOperator? at hop
            split at hop
            · assumption
            · cases hop
          refine Moves.advance hs (by simp [hkind]) (by rw [hkind]; rfl) fun s' htook => ?_
          have hlt := htook.length_lt
          refine Moves.bind (ih.expressionAt .sign s' (by omega)) fun e s'' _ he => ?_
          exact unary_moves htook he
      · exact hlast .application (by omega)
  | application =>
      have hrank : Level.application.rank = 8 := by decide
      rw [expressionAt]
      refine Moves.bind (ih.atom s (by omega)) fun e s' _ ⟨he, hlt⟩ => ?_
      refine (ih.applications e s.reached s' he (by omega)).imp fun e' s'' ho he' => ⟨he', ?_⟩
      have hlength := ho.length_le
      omega
  | _ =>
      rw [expressionAt]
      · exact hoperands _ nofun h
      all_goals exact nofun

theorem infixes_moves {level : Level} {left : Expr} {start : Nat} {s : State}
    (hl : Placed start left s) (h : 16 * s.unread.length + 1 ≤ fuel + 1) :
    Moves .tag s (infixes (fuel + 1) level left) (Placed start) := by
  rw [infixes]
  refine Moves.bind (nextOperator?_moves level s) fun o s' ho ⟨hnone, hsome⟩ => ?_
  cases o with
  | none =>
      rw [hnone rfl]
      exact Moves.pure hl
  | some op =>
      have hlt := hsome nofun
      refine Moves.bind (ih.expressionAt level.tighter s' (by omega)) fun right s'' ho' hr => ?_
      obtain ⟨⟨hstart, hforward, hstop⟩, hlt'⟩ := hr
      obtain ⟨hstartl, hforwardl, hstopl⟩ := hl
      have hreached := ho.reached
      refine Moves.join (by omega) fun span hspan hspan' => ?_
      refine ih.infixes level _ start s'' ⟨?_, ?_, ?_⟩ (by omega)
      · rw [Expr.span, hspan]
        exact hstartl
      · rw [Expr.span, hspan, hspan']
        omega
      · rw [Expr.span, hspan']
        exact hstop

/-- An application of `e` that ends with the token `t`, and what follows it. -/
theorem further_moves {e : Expr} {t : Token} {start : Nat} {s s' : State} {f : Span → Expr}
    (he : Placed start e s) (ht : Closed s.reached t s') (hf : ∀ span, (f span).span = span)
    (h : 16 * s'.unread.length + 1 ≤ fuel) :
    Moves .tag s' (join e.span t.span >>= fun span => Parser.applications fuel (f span))
      (Placed start) := by
  obtain ⟨hstart, hforward, hstop⟩ := he
  obtain ⟨hclose, hforward', hreached⟩ := ht
  refine Moves.join (by omega) fun span hspan hspan' => ?_
  refine ih.applications _ start s' ⟨?_, ?_, ?_⟩ h
  · rw [hf, hspan]
    exact hstart
  · rw [hf, hspan, hspan']
    omega
  · exact Nat.le_of_eq (by rw [hf, hspan', hreached])

theorem applications_moves {e : Expr} {start : Nat} {s : State} (he : Placed start e s)
    (h : 16 * s.unread.length + 1 ≤ fuel + 1) :
    Moves .tag s (applications (fuel + 1) e) (Placed start) := by
  rw [applications]
  refine Moves.peek fun t rest hs => ?_
  split
  · next ht =>
      refine Moves.advance hs (by simp [ht]) (by rw [ht]; rfl) fun s₁ htook => ?_
      refine Moves.expect (by decide) rfl rfl fun name s₂ _ hname => ?_
      have hlt := htook.length_lt
      have hlt₂ := hname.length_lt
      refine further_moves ih he ⟨?_, hname.forward, hname.reached⟩ (fun _ => rfl) (by omega)
      exact Nat.le_trans htook.le_reached hname.start
  · next ht =>
      refine Moves.advance hs (by simp [ht]) (by rw [ht]; rfl) fun s₁ htook => ?_
      have hlt := htook.length_lt
      have hrank : Level.disjunction.rank = 0 := by decide
      refine Moves.bind (ih.expressionAt .disjunction s₁ (by omega)) fun position s₂ ho _ => ?_
      refine Moves.expect (by decide) rfl rfl fun close s₃ _ hclose => ?_
      have hlength := ho.length_le
      have hlt₃ := hclose.length_lt
      refine further_moves ih he ⟨?_, hclose.forward, hclose.reached⟩ (fun _ => rfl) (by omega)
      exact Nat.le_trans htook.le_reached (Nat.le_trans ho.reached hclose.start)
  · next ht =>
      refine Moves.advance hs (by simp [ht]) (by rw [ht]; rfl) fun s₁ htook => ?_
      have hlt := htook.length_lt
      refine Moves.bind (ih.argumentsFrom [] [] s₁ (by omega)) fun args s₂ ho hclose => ?_
      have hlength := ho.length_le
      obtain ⟨hstart, hforward, hreached⟩ := hclose
      have hopen := htook.forward
      have hopened := htook.reached
      refine Moves.join (by omega) fun argsSpan _ _ => ?_
      refine further_moves ih he ⟨?_, hforward, hreached⟩ (fun _ => rfl) (by omega)
      exact Nat.le_trans htook.le_reached hstart
  · next ht =>
      refine Moves.advance hs (by simp [ht]) (by rw [ht]; rfl) fun s₁ htook => ?_
      refine Moves.expect (by decide) rfl rfl fun name s₂ _ hname => ?_
      have hlt := htook.length_lt
      have hlt₂ := hname.length_lt
      have hnamed := Nat.le_trans htook.le_reached hname.start
      refine Moves.peek fun next rest' hs₂ => ?_
      split
      · next hopen =>
          refine Moves.advance hs₂ (by simp [hopen]) (by rw [hopen]; rfl) fun s₃ htook₃ => ?_
          have hlt₃ := htook₃.length_lt
          refine Moves.bind (ih.filterArguments [] s₃ (by omega)) fun args s₄ ho hclose => ?_
          have hlength := ho.length_le
          refine further_moves ih he ⟨?_, hclose.forward, hclose.reached⟩ (fun _ => rfl) (by omega)
          refine Nat.le_trans (Nat.le_trans hnamed hname.forward) ?_
          rw [← hname.reached]
          exact Nat.le_trans htook₃.le_reached hclose.start_le
      · exact further_moves ih he ⟨hnamed, hname.forward, hname.reached⟩ (fun _ => rfl) (by omega)
  · exact Moves.pure he

theorem atom_moves {s : State} (h : 16 * s.unread.length + 1 ≤ fuel + 1) :
    Moves .tag s (atom (fuel + 1)) (ReadFrom s) := by
  have hsingle : ∀ {t : Token} {s' : State} {e : Expr}, s.Took t s' → e.span = t.span →
      ReadFrom s e s' := by
    intro t s' e htook hspan
    refine ⟨⟨?_, ?_, ?_⟩, htook.length_lt⟩
    · rw [hspan]
      exact htook.start
    · rw [hspan]
      exact htook.forward
    · exact Nat.le_of_eq (by rw [hspan, htook.reached])
  rw [atom]
  refine Moves.peek fun t rest hs => ?_
  split
  · next ht =>
      exact Moves.advance hs (by simp [ht]) (by rw [ht]; rfl) fun s' htook =>
        Moves.pure (hsingle htook rfl)
  · next ht =>
      exact Moves.advance hs (by simp [ht]) (by rw [ht]; rfl) fun s' htook =>
        Moves.pure (hsingle htook rfl)
  · next ht =>
      intro ho
      obtain ⟨hordered, htook⟩ := ho.consume hs (by simp [ht])
      have honward : Scope.tag.Onward s (s.consume t rest) :=
        htook.onward hordered (by rw [ht]; rfl) rfl rfl
      refine Ends.step (advance_eq hs (by simp [ht])) ?_
      split
      · exact Ends.pure ⟨honward, hsingle htook rfl⟩
      · next hbad => exact Ends.throw ⟨honward, t, by simp [hs], ht, hbad⟩
  · next ht =>
      split
      · exact Moves.advance hs (by simp [ht]) (by rw [ht]; rfl) fun s' htook =>
          Moves.pure (hsingle htook rfl)
      · exact Moves.complain rfl
  · next ht =>
      refine Moves.advance hs (by simp [ht]) (by rw [ht]; rfl) fun s₁ htook => ?_
      have hlt := htook.length_lt
      have hrank : Level.disjunction.rank = 0 := by decide
      refine Moves.bind (ih.expressionAt .disjunction s₁ (by omega)) fun e s₂ ho he => ?_
      refine Moves.expect (by decide) rfl rfl fun close s₃ _ hclose => Moves.pure ?_
      obtain ⟨⟨hstart, hforward, hstop⟩, hlt₂⟩ := he
      have hopen := htook.le_reached
      have hlt₃ := hclose.length_lt
      have hend := hclose.le_reached
      exact ⟨⟨by omega, hforward, by omega⟩, by omega⟩
  · exact Moves.complain rfl

omit ih in
theorem argumentEnd_moves (s : State) :
    Moves .tag s argumentEnd fun t s' => s.Took t s' := by
  refine Moves.peek fun t rest hs => ?_
  split
  · next hsep =>
      simp only [Bool.or_eq_true, decide_eq_true_eq] at hsep
      refine Moves.of_bind (Moves.advance hs ?_ ?_ fun s' htook => Moves.pure htook)
      · rcases hsep with h | h <;> simp [h]
      · rcases hsep with h | h <;> rw [h] <;> rfl
  · exact Moves.complain rfl

theorem argumentsFrom_moves {args : List Expr} {named : List (NamedArgument Expr)} {s : State}
    (h : 16 * s.unread.length + 11 ≤ fuel + 1) :
    Moves .tag s (argumentsFrom (fuel + 1) args named) fun a s' =>
      Closed s.reached a.close s' := by
  have hrank : Level.disjunction.rank = 0 := by decide
  -- behind an argument there is less to read than before it
  have hafter : ∀ (s' : State) (args : List Expr) (named : List (NamedArgument Expr)),
      s.reached ≤ s'.reached → s'.unread.length < s.unread.length →
      Moves .tag s' (do
        let sep ← argumentEnd
        if sep.kind = .comma then Parser.argumentsFrom fuel args named
        else return ⟨args, named, sep⟩) fun a s'' => Closed s.reached a.close s'' := by
    intro s' args named hreached hlt
    refine Moves.bind (argumentEnd_moves s') fun sep s'' _ htook => ?_
    have hlt' := htook.length_lt
    have hle := htook.le_reached
    split
    · refine (ih.argumentsFrom args named s'' (by omega)).imp fun a s₃ _ hclose => ?_
      exact ⟨by have := hclose.start_le; omega, hclose.forward, hclose.reached⟩
    · exact Moves.pure ⟨Nat.le_trans hreached htook.start, htook.forward, htook.reached⟩
  rw [argumentsFrom]
  refine Moves.peek fun t rest hs => ?_
  split
  · next ht =>
      refine Moves.advance hs (by simp [ht]) (by rw [ht]; rfl) fun s' htook => Moves.pure ?_
      exact ⟨htook.start, htook.forward, htook.reached⟩
  · have hpositional : Moves .tag s (do
        let value ← Parser.expressionAt fuel .disjunction
        let sep ← argumentEnd
        if sep.kind = .comma then Parser.argumentsFrom fuel (args ++ [value]) named
        else return ⟨args ++ [value], named, sep⟩) fun a s'' => Closed s.reached a.close s'' := by
      refine Moves.bind (ih.expressionAt .disjunction s (by omega)) fun e s' ho he => ?_
      exact hafter s' _ _ ho.reached he.2
    unfold namedArgumentAhead
    split
    · next ht =>
        rw [bind_assoc]
        refine Moves.peekSecond hs (by simp [ht]) fun u more hrest => ?_
        rw [pure_bind]
        by_cases hu : u.kind = .equals
        · rw [if_pos (by simpa using hu)]
          refine Moves.advance hs (by simp [ht]) (by rw [ht]; rfl) fun s₁ htook => ?_
          have hs₁ : s₁.unread = u :: more := by
            rw [← hrest]
            exact (List.cons.inj (htook.unread.symm.trans hs)).2
          refine Moves.advance hs₁ (by simp [hu]) (by rw [hu]; rfl) fun s₂ htook₂ => ?_
          have hlt := htook.length_lt
          have hlt₂ := htook₂.length_lt
          refine Moves.bind (ih.expressionAt .disjunction s₂ (by omega)) fun e s₃ ho he => ?_
          obtain ⟨⟨hstart, hforward, hstop⟩, hlt₃⟩ := he
          have hnamed := htook.reached
          have hname := htook.forward
          have hle := htook.le_reached
          have hle₂ := htook₂.le_reached
          have hle₃ := ho.reached
          exact Moves.join (by omega) fun span _ _ => hafter s₃ _ _ (by omega) (by omega)
        · rw [if_neg (by simpa using hu)]
          exact hpositional
    · rw [pure_bind]
      exact hpositional

theorem filterArguments_moves {args : List Expr} {s : State}
    (h : 16 * s.unread.length + 11 ≤ fuel + 1) :
    Moves .tag s (filterArguments (fuel + 1) args) fun r s' => Closed s.reached r.2 s' := by
  have hrank : Level.disjunction.rank = 0 := by decide
  rw [filterArguments]
  refine Moves.peek fun t rest hs => ?_
  split
  · next ht =>
      refine Moves.advance hs (by simp [ht]) (by rw [ht]; rfl) fun s' htook => Moves.pure ?_
      exact ⟨htook.start, htook.forward, htook.reached⟩
  · refine Moves.bind (ih.expressionAt .disjunction s (by omega)) fun e s' ho ⟨_, hlt⟩ => ?_
    refine Moves.bind (argumentEnd_moves s') fun sep s'' _ htook => ?_
    have hlt' := htook.length_lt
    have hreached := ho.reached
    have hle := htook.le_reached
    split
    · refine (ih.filterArguments _ s'' (by omega)).imp fun r s₃ _ hclose => ?_
      exact ⟨by have := hclose.start_le; omega, hclose.forward, hclose.reached⟩
    · exact Moves.pure ⟨Nat.le_trans hreached htook.start, htook.forward, htook.reached⟩

end

/-! ## Every amount of fuel -/

theorem expressionsEnd : ∀ fuel, ExpressionsEnd fuel
  | 0 => expressionsEnd_zero
  | fuel + 1 =>
      have ih := expressionsEnd fuel
      { expressionAt := fun _ _ h => expressionAt_moves ih h
        infixes := fun _ _ _ _ hl h => infixes_moves ih hl h
        applications := fun _ _ _ he h => applications_moves ih he h
        atom := fun _ h => atom_moves ih h
        argumentsFrom := fun _ _ _ h => argumentsFrom_moves ih h
        filterArguments := fun _ _ h => filterArguments_moves ih h }

theorem expression_moves (s : State) : Moves .tag s expression (ReadFrom s) := by
  have h := (expressionsEnd (expressionFuel s.unread.length)).expressionAt .disjunction s
    (by unfold expressionFuel; omega)
  unfold Moves Ends at h ⊢
  rwa [expression]

theorem arguments_moves (s : State) :
    Moves .tag s arguments fun a s' => Closed s.reached a.close s' := by
  have h := (expressionsEnd (expressionFuel s.unread.length)).argumentsFrom [] [] s
    (by unfold expressionFuel; omega)
  unfold Moves Ends at h ⊢
  rwa [arguments]

end TemplateCompiler.Parser
