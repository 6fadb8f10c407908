import TemplateCompiler.Proofs.Grammar
import TemplateCompiler.Proofs.Reading

/-!
# Expressions are read by the grammar

Whatever expression the parser reads is spelled by the tokens that it read. The functions of the
parser call each other with less and less fuel, so their soundness is one statement for all of them
at once, `ExpressionsSound`, and each lemma below derives one part of it from all parts at the next
lower fuel.

A function that goes on behind something already read, such as `infixes`, keeps it in the tokens
before its start: it is sound from wherever these spell what it was given.
-/

namespace TemplateCompiler.Parser

open Template (Expr)

/-! ## Steps between operands -/

theorem nextOperator?_reads (level : Level) (s : State) :
    Reads [] s (nextOperator? level) fun o us =>
      (o = none → us = []) ∧ ∀ op, o = some op → SpellsOperator level us op := by
  refine Reads.peek fun t rest hs => ?_
  split
  · next op hop =>
      have ht : t.kind ≠ .eof := by
        intro heof
        simp [Level.operator?, heof] at hop
      refine Reads.advance_of hs ht fun s' _ => Reads.pure ⟨nofun, ?_⟩
      rintro _ ⟨⟩
      exact .single hop
  · have hnone : Reads [] s (pure none) fun (o : Option BinaryOperator) us =>
        (o = none → us = []) ∧ ∀ op, o = some op → SpellsOperator level us op :=
      Reads.pure ⟨fun _ => rfl, nofun⟩
    split
    · next hnot =>
        simp only [Bool.and_eq_true, decide_eq_true_eq] at hnot
        obtain ⟨rfl, hnot⟩ := hnot
        have ht : t.kind ≠ .eof := by simp [Token.kind_eq_of_isKeyword hnot]
        refine Reads.peekSecond hs ht fun u more hrest => ?_
        split
        · next hin =>
            have hu : u.kind ≠ .eof := by simp [Token.kind_eq_of_isKeyword hin]
            refine Reads.advance_of hs ht fun s' hs' => ?_
            refine Reads.advance_of (hs'.trans hrest) hu fun s'' _ => Reads.pure ⟨nofun, ?_⟩
            rintro _ ⟨⟩
            exact .notIn hnot hin
        · exact hnone
    · exact hnone

theorem argumentEnd_reads (s : State) :
    Reads [] s argumentEnd fun t us =>
      us = [t] ∧ (t.kind = .comma ∨ t.kind = .rightParen) := by
  refine Reads.peek fun t rest hs => ?_
  split
  · next ht =>
      have hsep : t.kind = .comma ∨ t.kind = .rightParen := by simpa using ht
      have hne : t.kind ≠ .eof := by rcases hsep with h | h <;> simp [h]
      exact Reads.of_bind (Reads.advance_of hs hne fun s' _ => Reads.pure ⟨rfl, hsep⟩)
  · exact Reads.complain

theorem namedArgumentAhead_reads {β : Type} {ts rest : List Token} {t : Token} {s : State}
    {f : Bool → Parser β} {R : β → List Token → Prop} (hs : s.unread = t :: rest)
    (hyes : ∀ u more, t.kind = .identifier → rest = u :: more → u.kind = .equals →
      Reads ts s (f true) R)
    (hno : Reads ts s (f false) R) : Reads ts s (namedArgumentAhead t >>= f) R := by
  unfold namedArgumentAhead
  split
  · next ht =>
      rw [bind_assoc]
      refine Reads.peekSecond hs (by simp [ht]) fun u more hrest => ?_
      rw [pure_bind]
      by_cases hu : u.kind = .equals
      · simpa only [hu, decide_true] using hyes u more ht hrest hu
      · simpa only [hu, decide_false] using hno
  · rwa [pure_bind]

/-! ## Soundness at one amount of fuel -/

/-- What is read for the arguments of a call or a filter: they and the parenthesis behind them. -/
def SpellsArguments (args : List Expr) (named : List (NamedArgument Expr)) (close : Token)
    (ts : List Token) : Prop :=
  ∃ us, ts = us ++ [close] ∧ close.kind = .rightParen ∧ Derives us (.arguments args named)

/-- A parenthesis that is next opens the arguments of what the tokens spell. -/
def State.MayCall (s : State) (ts : List Token) : Prop :=
  ∀ t rest, s.unread = t :: rest → t.kind = .leftParen → ¬ EndsInFilterName ts

structure ExpressionsSound (fuel : Nat) : Prop where
  expressionAt : ∀ level s,
    Reads [] s (expressionAt fuel level) fun e us => Derives us (.expr level e)
  infixes : ∀ level left ts s, Derives ts (.expr level left) →
    Reads ts s (infixes fuel level left) fun e us => Derives us (.expr level e)
  applications : ∀ e ts s, Derives ts (.expr .application e) → s.MayCall ts →
    Reads ts s (applications fuel e) fun e us => Derives us (.expr .application e)
  atom : ∀ s, Reads [] s (atom fuel) fun e us =>
    Derives us (.expr .application e) ∧ ¬ EndsInFilterName us
  argumentsFrom : ∀ args named ts s, Derives ts (.leading args named) →
    Reads ts s (argumentsFrom fuel args named) fun a us =>
      SpellsArguments a.positional a.named a.close us
  filterArguments : ∀ args ts s, Derives ts (.leading args []) →
    Reads ts s (filterArguments fuel args) fun r us => SpellsArguments r.1 [] r.2 us

theorem expressionsSound_zero : ExpressionsSound 0 where
  expressionAt level s := by
    rw [expressionAt]
    exact Reads.throw
  infixes level left ts s _ := by
    rw [infixes]
    exact Reads.throw
  applications e ts s _ _ := by
    rw [applications]
    exact Reads.throw
  atom s := by
    rw [atom]
    exact Reads.throw
  argumentsFrom args named ts s _ := by
    rw [argumentsFrom]
    exact Reads.throw
  filterArguments args ts s _ := by
    rw [filterArguments]
    exact Reads.throw

section

variable {fuel : Nat} (ih : ExpressionsSound fuel)

include ih

/-- A level of infix operators: an operand of the next tighter level, and what follows it. -/
theorem operands_reads (level : Level) (s : State) :
    Reads [] s
      (do
        let left ← Parser.expressionAt fuel level.tighter
        Parser.infixes fuel level left)
      fun e us => Derives us (.expr level e) :=
  Reads.bind (ih.expressionAt level.tighter s) fun left us s' hl =>
    ih.infixes level left us s' (.tighter hl)

theorem expressionAt_reads (level : Level) (s : State) :
    Reads [] s (expressionAt (fuel + 1) level) fun e us => Derives us (.expr level e) := by
  cases level with
  | negation =>
      rw [expressionAt]
      refine Reads.peek fun t rest hs => ?_
      split
      · next ht =>
          refine Reads.advance_of hs (by simp [Token.kind_eq_of_isKeyword ht]) fun s' _ => ?_
          refine Reads.bind (ih.expressionAt .negation s') fun e us s'' he => ?_
          exact Reads.join fun span hspan => Reads.pure (.negation ht he hspan)
      · exact Reads.last (ih.expressionAt .comparison s) fun e us he => .tighter he
  | sign =>
      rw [expressionAt]
      refine Reads.peek fun t rest hs => ?_
      split
      · next op hop =>
          have ht : t.kind ≠ .eof := by
            intro heof
            simp [signOperator?, heof] at hop
          refine Reads.advance_of hs ht fun s' _ => ?_
          refine Reads.bind (ih.expressionAt .sign s') fun e us s'' he => ?_
          exact Reads.join fun span hspan => Reads.pure (.sign hop he hspan)
      · exact Reads.last (ih.expressionAt .application s) fun e us he => .tighter he
  | application =>
      rw [expressionAt]
      exact Reads.bind (ih.atom s) fun e us s' ⟨he, hname⟩ =>
        ih.applications e us s' he fun _ _ _ _ => hname
  | _ =>
      rw [expressionAt]
      · exact operands_reads ih _ s
      all_goals exact nofun

theorem infixes_reads {level : Level} {left : Expr} {ts : List Token} (s : State)
    (hl : Derives ts (.expr level left)) :
    Reads ts s (infixes (fuel + 1) level left) fun e us => Derives us (.expr level e) := by
  rw [infixes]
  refine Reads.bind (nextOperator?_reads level s) fun o os s' ⟨hnone, hsome⟩ => ?_
  cases o with
  | none =>
      rw [hnone rfl, List.append_nil]
      exact Reads.pure hl
  | some op =>
      refine Reads.bind (ih.expressionAt level.tighter s') fun right us s'' hr => ?_
      refine Reads.join fun span hspan => ?_
      exact ih.infixes level _ _ s'' (.binary hl (hsome op rfl) hr hspan)

theorem atom_reads (s : State) :
    Reads [] s (atom (fuel + 1)) fun e us =>
      Derives us (.expr .application e) ∧ ¬ EndsInFilterName us := by
  rw [atom]
  refine Reads.peek fun t rest hs => ?_
  split
  · next ht =>
      refine Reads.advance_of hs (by simp [ht]) fun s' _ => Reads.pure ?_
      exact ⟨.name ht, not_endsInFilterName_single t⟩
  · next ht =>
      refine Reads.advance_of hs (by simp [ht]) fun s' _ => Reads.pure ?_
      exact ⟨.string ht, not_endsInFilterName_single t⟩
  · next ht =>
      refine Reads.advance_of hs (by simp [ht]) fun s' _ => ?_
      split
      · next value hv => exact Reads.pure ⟨.number ht hv, not_endsInFilterName_single t⟩
      · exact Reads.throw
  · next ht =>
      split
      · next value hv =>
          refine Reads.advance_of hs (by simp [ht]) fun s' _ => Reads.pure ?_
          exact ⟨.constant hv, not_endsInFilterName_single t⟩
      · exact Reads.complain
  · next ht =>
      refine Reads.advance_of hs (by simp [ht]) fun s' _ => ?_
      refine Reads.bind (ih.expressionAt .disjunction s') fun e us s'' he => ?_
      refine Reads.expect (by decide) fun close s3 hclose => Reads.pure ⟨?_, ?_⟩
      · simpa using Derives.paren ht he hclose
      · exact not_endsInFilterName_append (by simp [hclose])
  · exact Reads.complain

theorem applications_reads {e : Expr} {ts : List Token} {s : State}
    (he : Derives ts (.expr .application e)) (hcall : s.MayCall ts) :
    Reads ts s (applications (fuel + 1) e) fun e us => Derives us (.expr .application e) := by
  rw [applications]
  refine Reads.peek fun t rest hs => ?_
  split
  · next ht =>
      refine Reads.advance_of hs (by simp [ht]) fun s' _ => ?_
      refine Reads.expect (by decide) fun name s'' hname => ?_
      refine Reads.join fun span hspan => ih.applications _ _ s'' ?_ ?_
      · simpa using Derives.member he ht hname hspan
      · exact fun _ _ _ _ => not_endsInFilterName_member (by simp [ht])
  · next ht =>
      refine Reads.advance_of hs (by simp [ht]) fun s' _ => ?_
      refine Reads.bind (ih.expressionAt .disjunction s') fun position us s'' hp => ?_
      refine Reads.expect (by decide) fun close s3 hclose => ?_
      refine Reads.join fun span hspan => ih.applications _ _ s3 ?_ ?_
      · simpa using Derives.index he ht hp hclose hspan
      · exact fun _ _ _ _ => not_endsInFilterName_append (by simp [hclose])
  · next ht =>
      refine Reads.advance_of hs (by simp [ht]) fun s' _ => ?_
      refine Reads.bind (ih.argumentsFrom [] [] [] s' .start) fun args us s'' ha => ?_
      obtain ⟨vs, rfl, hclose, ha⟩ := ha
      refine Reads.join fun argsSpan hargs => Reads.join fun span hspan => ?_
      refine ih.applications _ _ s'' ?_ fun _ _ _ _ => ?_
      · simpa using Derives.call he (hcall t rest hs ht) ht ha hclose hargs hspan
      · rw [← List.append_assoc]
        exact not_endsInFilterName_append (by simp [hclose])
  · next ht =>
      refine Reads.advance_of hs (by simp [ht]) fun s' _ => ?_
      refine Reads.expect (by decide) fun name s'' hname => ?_
      refine Reads.peek fun next rest' hs'' => ?_
      split
      · next hopen =>
          refine Reads.advance_of hs'' (by simp [hopen]) fun s3 _ => ?_
          refine Reads.bind (ih.filterArguments [] [] s3 .start) fun args us s4 ha => ?_
          obtain ⟨vs, rfl, hclose, ha⟩ := ha
          refine Reads.join fun span hspan => ih.applications _ _ s4 ?_ fun _ _ _ _ => ?_
          · simpa using Derives.filterWith he ht hname hopen ha hclose hspan
          · rw [← List.append_assoc]
            exact not_endsInFilterName_append (by simp [hclose])
      · next hopen =>
          refine Reads.join fun span hspan => ih.applications _ _ s'' ?_ fun u _ hu hparen => ?_
          · simpa using Derives.filter he ht hname hspan
          · obtain ⟨rfl, -⟩ := List.cons.inj (hs''.symm.trans hu)
            exact absurd hparen hopen
  · exact Reads.pure he

/-- Behind an argument: a comma and further arguments, or the parenthesis that ends them. -/
theorem afterArgument_reads {args : List Expr} {named : List (NamedArgument Expr)}
    {ts : List Token} (s : State)
    (hcomma : ∀ c, c.kind = .comma → Derives (ts ++ [c]) (.leading args named))
    (hlast : Derives ts (.arguments args named)) :
    Reads ts s (do
        let sep ← argumentEnd
        if sep.kind = .comma then Parser.argumentsFrom fuel args named
        else return ⟨args, named, sep⟩)
      fun a us => SpellsArguments a.positional a.named a.close us := by
  refine Reads.bind (argumentEnd_reads s) fun sep us s' ⟨hus, hsep⟩ => ?_
  subst hus
  split
  · next hc => exact ih.argumentsFrom args named _ s' (hcomma sep hc)
  · next hc => exact Reads.pure ⟨ts, rfl, hsep.resolve_left hc, hlast⟩

theorem argumentsFrom_reads {args : List Expr} {named : List (NamedArgument Expr)}
    {ts : List Token} (s : State) (hl : Derives ts (.leading args named)) :
    Reads ts s (argumentsFrom (fuel + 1) args named) fun a us =>
      SpellsArguments a.positional a.named a.close us := by
  rw [argumentsFrom]
  refine Reads.peek fun t rest hs => ?_
  split
  · next ht =>
      refine Reads.advance_of hs (by simp [ht]) fun s' _ => Reads.pure ?_
      exact ⟨ts, rfl, ht, .closed hl⟩
  · refine namedArgumentAhead_reads hs (fun u more ht hrest hu => ?_) ?_
    · refine Reads.advance_of hs (by simp [ht]) fun s' hs' => ?_
      refine Reads.advance_of (hs'.trans hrest) (by simp [hu]) fun s'' _ => ?_
      refine Reads.bind (ih.expressionAt .disjunction s'') fun e us s3 he => ?_
      refine Reads.join fun span hspan => ?_
      have ha : Derives (t :: u :: us) (.argument [] [⟨t.value, e, t.span, span⟩]) :=
        .named ht hu he hspan
      refine afterArgument_reads ih s3 (fun c hc => ?_) ?_
      · simpa using Derives.comma hl ha hc
      · simpa using Derives.last hl ha
    · refine Reads.bind (ih.expressionAt .disjunction s) fun e us s' he => ?_
      refine afterArgument_reads ih s' (fun c hc => ?_) ?_
      · simpa using Derives.comma hl (.positional he) hc
      · simpa using Derives.last hl (.positional he)

theorem filterArguments_reads {args : List Expr} {ts : List Token} (s : State)
    (hl : Derives ts (.leading args [])) :
    Reads ts s (filterArguments (fuel + 1) args) fun r us => SpellsArguments r.1 [] r.2 us := by
  rw [filterArguments]
  refine Reads.peek fun t rest hs => ?_
  split
  · next ht =>
      refine Reads.advance_of hs (by simp [ht]) fun s' _ => Reads.pure ?_
      exact ⟨ts, rfl, ht, .closed hl⟩
  · refine Reads.bind (ih.expressionAt .disjunction s) fun e us s' he => ?_
    refine Reads.bind (argumentEnd_reads s') fun sep vs s'' ⟨hvs, hsep⟩ => ?_
    subst hvs
    split
    · next hc => exact ih.filterArguments _ _ s'' (.comma hl (.positional he) hc)
    · next hc =>
        exact Reads.pure ⟨ts ++ us, rfl, hsep.resolve_left hc, .last hl (.positional he)⟩

end

/-! ## Soundness -/

theorem expressionsSound : ∀ fuel, ExpressionsSound fuel
  | 0 => expressionsSound_zero
  | fuel + 1 =>
      have ih := expressionsSound fuel
      { expressionAt := expressionAt_reads ih
        infixes := fun _ _ _ s hl => infixes_reads ih s hl
        applications := fun _ _ _ he hcall => applications_reads ih he hcall
        atom := atom_reads ih
        argumentsFrom := fun _ _ _ s hl => argumentsFrom_reads ih s hl
        filterArguments := fun _ _ s hl => filterArguments_reads ih s hl }

theorem expression_reads (s : State) :
    Reads [] s expression fun e us => Derives us (.expr .disjunction e) := by
  have h := (expressionsSound (expressionFuel s.unread.length)).expressionAt .disjunction s
  unfold Reads Ends at h ⊢
  rwa [expression]

theorem arguments_reads (s : State) :
    Reads [] s arguments fun a us => SpellsArguments a.positional a.named a.close us := by
  have h := (expressionsSound (expressionFuel s.unread.length)).argumentsFrom [] [] [] s .start
  unfold Reads Ends at h ⊢
  rwa [arguments]

end TemplateCompiler.Parser
