import TemplateCompiler.Proofs.Headers

/-!
# What is gathered of the texts ahead

A parser trims a text where it meets it, by the marker of the last closing delimiter that it
remembers and by that of the opening delimiter behind the text. So the tokens ahead and the
remembered marker settle which text nodes are still to come, `State.pending`, and a run takes some
of these off the front. `Gathers setting s p Q` says so of a run of `p` that nothing was complained
about: `Q` holds of its result and of the text nodes that it took off.

A complaint is never taken back. A run that ends without one therefore had none at any time, and the
conclusion is asked only where the last state has none; what a parser makes of a faulty tag does not
matter.

Inside of a tag there is no text: this module follows the parsers of expressions and headers, which
take nothing off.
-/

namespace TemplateCompiler.Parser

open Template (Expr Node)

variable {α β : Type}

/-! ## Texts ahead -/

/-- The marker of the opening delimiter that is next, if one is. -/
def markerAhead : List Token → Option String
  | [] => none
  | t :: _ => if t.kind.isOpener then some t.value else none

/-- What is left of a text between two markers, unless it is nothing. -/
def Setting.textNode (setting : Setting) (left right : Option String) (t : Token) : Option Node :=
  let value :=
    (setting.effective right).trimRight ((setting.effective left).trimLeft t.value.toList)
  if value.isEmpty then none else some (.text (String.ofList value) t.span)

/-- The text nodes that are made of these tokens, by a parser that remembers the marker `left`. -/
def Setting.textsFrom (setting : Setting) : Option String → List Token → List Node
  | _, [] => []
  | left, t :: rest =>
    if t.kind = .text then
      (setting.textNode left (markerAhead rest) t).toList ++ setting.textsFrom none rest
    else setting.textsFrom (if t.kind.isCloser then some t.value else left) rest

/-- The text nodes that are still to come. -/
def State.pending (s : State) (setting : Setting) : List Node :=
  setting.textsFrom s.leftMarker s.unread

theorem Setting.textsFrom_text (setting : Setting) {left : Option String} {t : Token}
    {rest : List Token} (ht : t.kind = .text) :
    setting.textsFrom left (t :: rest) =
      (setting.textNode left (markerAhead rest) t).toList ++ setting.textsFrom none rest := by
  rw [textsFrom, if_pos ht]

theorem Setting.textsFrom_of_ne (setting : Setting) {left : Option String} {t : Token}
    {rest : List Token} (ht : t.kind ≠ .text) :
    setting.textsFrom left (t :: rest) =
      setting.textsFrom (if t.kind.isCloser then some t.value else left) rest := by
  rw [textsFrom, if_neg ht]

theorem State.pending_consume {s : State} {t : Token} {rest : List Token} (setting : Setting)
    (hs : s.unread = t :: rest) (ht : t.kind ≠ .text) :
    (s.consume t (if t.kind = .eof then t :: rest else rest)).pending setting =
      s.pending setting := by
  unfold pending consume
  rw [hs, setting.textsFrom_of_ne ht]
  by_cases heof : t.kind = .eof
  · have hclose : t.kind.isCloser = false := by rw [heof]; rfl
    rw [if_pos heof, hclose, setting.textsFrom_of_ne ht, hclose]
    rfl
  · rw [if_neg heof]

/-- A span is taken without a change of the state. -/
theorem spanFrom_keeps (unit : String) (start : Position) (s : State) :
    (∃ span, spanFrom unit start s = .ok span s) ∨ ∃ e, spanFrom unit start s = .error e s := by
  cases hstop : s.lastEnd? with
  | none => exact .inr ⟨s.beyond, spanFrom_eq_error hstop unit start⟩
  | some stop =>
      rw [spanFrom_eq hstop]
      cases Span.between start stop unit with
      | ok span => exact .inl ⟨span, rfl⟩
      | error r => exact .inr ⟨.reversed r, rfl⟩

/-! ## Runs -/

/-- From `s` on, if nothing was complained about in the end, nothing was before, and `p` takes text
nodes off those to come. -/
def Gathers (setting : Setting) (s : State) (p : Parser α) (Q : α → List Node → Prop) : Prop :=
  Ends p s
    (fun a s' => s'.complaints = [] → s.complaints = [] ∧
      ∃ ns, s.pending setting = ns ++ s'.pending setting ∧ Q a ns)
    fun _ s' => s'.complaints = [] → s.complaints = []

/-- No text node is taken off. -/
def Passes (setting : Setting) (s : State) (p : Parser α) : Prop :=
  Gathers setting s p fun _ ns => ns = []

namespace Gathers

variable {setting : Setting} {s : State} {p : Parser α} {f : α → Parser β}
  {P Q : α → List Node → Prop} {R : β → List Node → Prop}

theorem imp (h : Gathers setting s p P) (hQ : ∀ a ns, P a ns → Q a ns) : Gathers setting s p Q :=
  Ends.imp h (fun _ _ ha hnone => by
    obtain ⟨hs, ns, hns, hP⟩ := ha hnone
    exact ⟨hs, ns, hns, hQ _ _ hP⟩) fun _ _ he => he

theorem pure {a : α} (h : Q a []) : Gathers setting s (Pure.pure a) Q :=
  Ends.pure fun hnone => ⟨hnone, [], rfl, h⟩

theorem throw {e : Stop} : Gathers setting s (MonadExcept.throw e : Parser α) Q :=
  Ends.throw id

theorem complain {problem : SyntaxProblem} {span : Span} :
    Gathers setting s (complain problem span : Parser α) Q :=
  throw

/-- What a first part takes off stands before what is taken off behind it. Of where the first part
ends, `E` may be known besides. -/
theorem bind_of {E : α → State → Prop} (hp : Gathers setting s p P)
    (he : Ends p s E fun _ _ => True)
    (hf : ∀ a s', E a s' → Gathers setting s' (f a) fun b ms => ∀ ns, P a ns → R b (ns ++ ms)) :
    Gathers setting s (p >>= f) R := by
  cases h : p s with
  | error e s' =>
      unfold Gathers Ends
      rw [bind_apply_of_error h]
      exact hp.of_error h
  | ok a s' =>
      unfold Gathers Ends
      rw [bind_apply_of_ok h]
      have hfirst := hp.of_ok h
      refine Ends.imp (hf a s' (he.of_ok h)) (fun b s'' hb hnone => ?_) fun e s'' he hnone => ?_
      · obtain ⟨hs', ms, hms, hR⟩ := hb hnone
        obtain ⟨hs, ns, hns, hP⟩ := hfirst hs'
        exact ⟨hs, ns ++ ms, by rw [hns, hms, List.append_assoc], hR ns hP⟩
      · exact (hfirst (he hnone)).1

theorem bind (hp : Gathers setting s p P)
    (hf : ∀ a s', Gathers setting s' (f a) fun b ms => ∀ ns, P a ns → R b (ns ++ ms)) :
    Gathers setting s (p >>= f) R :=
  bind_of (E := fun _ _ => True) hp (Ends.of_forall (fun _ _ => trivial) fun _ _ => trivial)
    fun a s' _ => hf a s'

/-- A first part that takes nothing off. -/
theorem pass (hp : Passes setting s p) (hf : ∀ a s', Gathers setting s' (f a) R) :
    Gathers setting s (p >>= f) R :=
  bind hp fun a s' => (hf a s').imp fun b ms hb ns hns => by rwa [hns, List.nil_append]

theorem of_bind (h : Gathers setting s (p >>= Pure.pure) Q) : Gathers setting s p Q := by
  rwa [bind_pure] at h

theorem map {g : α → β} (hp : Gathers setting s p P) (hg : ∀ a ns, P a ns → R (g a) ns) :
    Gathers setting s (g <$> p) R :=
  bind hp fun _ _ => pure fun ns hns => by rw [List.append_nil]; exact hg _ ns hns

/-- A step that leaves the texts to come and the complaints alone. -/
theorem step {a : α} {s' : State} (hp : p s = .ok a s')
    (hpending : s'.pending setting = s.pending setting)
    (hcomplaints : s'.complaints = s.complaints) (hf : Gathers setting s' (f a) R) :
    Gathers setting s (p >>= f) R := by
  unfold Gathers Ends at hf ⊢
  rw [bind_apply_of_ok hp, ← hpending, ← hcomplaints]
  exact hf

/-- A step that stops. -/
theorem stop {e : Stop} (hp : p s = .error e s) : Gathers setting s (p >>= f) R := by
  unfold Gathers Ends
  rw [bind_apply_of_error hp]
  exact id

/-! ## Single tokens -/

section

variable {f : Token → Parser β} {t : Token} {rest : List Token}

theorem peek (h : ∀ t rest, s.unread = t :: rest → Gathers setting s (f t) R) :
    Gathers setting s (peek >>= f) R := by
  cases hs : s.unread with
  | nil => exact stop (by rw [Parser.peek, hs])
  | cons t rest => exact step (peek_eq hs) rfl rfl (h t rest hs)

theorem peekSecond (hs : s.unread = t :: rest) (ht : t.kind ≠ .eof)
    (h : ∀ u more, rest = u :: more → Gathers setting s (f u) R) :
    Gathers setting s (peekSecond >>= f) R := by
  cases rest with
  | nil => exact stop (by rw [Parser.peekSecond, hs]; exact if_neg ht)
  | cons u more => exact step (peekSecond_eq hs ht) rfl rfl (h u more rfl)

theorem advance (hs : s.unread = t :: rest) (ht : t.kind ≠ .text)
    (h : ∀ s', (t.kind ≠ .eof → s'.unread = rest) → Gathers setting s' (f t) R) :
    Gathers setting s (advance >>= f) R :=
  step (by rw [Parser.advance, hs]) (s.pending_consume setting hs ht) rfl
    (h _ fun hne => if_neg hne)

theorem expect {kind : TokenKind} {problem : SyntaxProblem} (hk : kind ≠ .text)
    (h : ∀ t s', Gathers setting s' (f t) R) :
    Gathers setting s (Parser.expect kind problem >>= f) R := by
  refine pass (peek fun t rest hs => ?_) h
  split
  · next ht => exact of_bind (advance hs (ht ▸ hk) fun s' _ => pure rfl)
  · exact complain

theorem expectKeyword {word : String} (h : ∀ t s', Gathers setting s' (f t) R) :
    Gathers setting s (Parser.expectKeyword word >>= f) R := by
  refine pass (peek fun t rest hs => ?_) h
  split
  · next ht =>
      exact of_bind (advance hs (by simp [Token.kind_eq_of_isKeyword ht]) fun s' _ => pure rfl)
  · exact complain

end

/-! ## Steps that leave the tokens alone -/

theorem get {f : State → Parser β} (h : Gathers setting s (f s) R) :
    Gathers setting s (MonadState.get >>= f) R :=
  step rfl rfl rfl h

theorem checked {x : Except ReversedSpan α} (h : ∀ a, Gathers setting s (f a) R) :
    Gathers setting s (Parser.checked x >>= f) R := by
  cases x with
  | ok a => exact step rfl rfl rfl (h a)
  | error r => exact stop rfl

theorem join {a b : Span} {f : Span → Parser β} (h : ∀ span, Gathers setting s (f span) R) :
    Gathers setting s (join a b >>= f) R :=
  checked h

theorem spanFrom {unit : String} {start : Position} {f : Span → Parser β}
    (h : ∀ span, Gathers setting s (f span) R) :
    Gathers setting s (spanFrom unit start >>= f) R := by
  rcases spanFrom_keeps unit start s with ⟨span, hspan⟩ | ⟨e, he⟩
  · exact step hspan rfl rfl (h span)
  · exact stop he

/-! ## Complaints -/

/-- Behind a complaint nothing is asked. -/
theorem note {c : Complaint} {f : Unit → Parser β} (h : ∀ s', Passes setting s' (f ())) :
    Gathers setting s (note c >>= f) R := by
  have hnote : Parser.note c s = .ok () { s with complaints := s.complaints ++ [c] } := rfl
  have hne : s.complaints ++ [c] ≠ [] := by simp
  unfold Gathers Ends
  rw [bind_apply_of_ok hnote]
  refine Ends.imp (h _) (fun b s' hb hnone => absurd (hb hnone).1 hne) fun e s' he hnone => ?_
  exact absurd (he hnone) hne

theorem skipTag_complaints (s : State) :
    Ends skipTag s (fun _ s' => s'.complaints = s.complaints)
      fun _ s' => s'.complaints = s.complaints := by
  suffices h : ∀ (ahead : List Token) (s : State), Ends (skipTagFrom ahead) s
      (fun _ s' => s'.complaints = s.complaints) fun _ s' => s'.complaints = s.complaints from
    h s.unread s
  intro ahead
  induction ahead with
  | nil => exact fun s => rfl
  | cons t rest ih =>
      intro s
      unfold Ends skipTagFrom
      by_cases heof : t.kind = .eof
      · simp only [if_pos heof]
      · by_cases hclose : t.kind.isCloser
        · simp only [if_neg heof, if_pos hclose]
          rfl
        · simp only [if_neg heof, if_neg hclose]
          exact ih (s.consume t rest)

theorem recover {c : Complaint} {Q : Unit → List Node → Prop} :
    Gathers setting s (recover c) Q := by
  have hnote : Parser.note c s = .ok () { s with complaints := s.complaints ++ [c] } := rfl
  have hne : ∀ {s' : State}, s'.complaints = s.complaints ++ [c] → s'.complaints ≠ [] := by
    intro s' hs'
    simp [hs']
  unfold Gathers Parser.recover
  refine Ends.step hnote ((skipTag_complaints _).imp ?_ ?_)
  · exact fun _ s' hs' hnone => absurd hnone (hne hs')
  · exact fun _ s' hs' hnone => absurd hnone (hne hs')

/-- A run that is not complained about had no problem to recover from. -/
theorem recovering (hp : Gathers setting s p P) :
    Gathers setting s (recovering p) fun o ns => ∃ a, o = some a ∧ P a ns := by
  refine Ends.tryCatch (F := fun _ s' => s'.complaints = [] → s.complaints = []) ?_ ?_
  · exact map hp fun a ns ha => ⟨a, rfl, ha⟩
  · intro e s' he
    cases e with
    | complaint c =>
        have hrecover : Gathers setting s'
            (Parser.recover c >>= fun _ => Pure.pure (none : Option α)) fun _ _ => False :=
          bind (P := fun _ _ => False) recover fun _ _ => pure fun _ => False.elim
        refine Ends.imp hrecover (fun o s'' ho hnone => ?_) fun e s'' he' hnone => he (he' hnone)
        obtain ⟨-, _, -, hfalse⟩ := ho hnone
        exact hfalse.elim
    | _ => exact Ends.throw he

end Gathers

/-! ## Expressions -/

section

variable {setting : Setting}

theorem nextOperator?_passes (level : Level) (s : State) :
    Passes setting s (nextOperator? level) := by
  refine Gathers.peek fun t rest hs => ?_
  split
  · next op hop =>
      have ht : t.kind ≠ .text := by
        intro htext
        simp [Level.operator?, htext] at hop
      exact Gathers.advance hs ht fun s' _ => Gathers.pure rfl
  · split
    · next hnot =>
        have hkind := Token.kind_eq_of_isKeyword (Bool.and_eq_true_iff.mp hnot).2
        refine Gathers.peekSecond hs (by simp [hkind]) fun u more hrest => ?_
        split
        · next hin =>
            refine Gathers.advance hs (by simp [hkind]) fun s' hs' => ?_
            have hs' : s'.unread = u :: more := (hs' (by simp [hkind])).trans hrest
            exact Gathers.advance hs' (by simp [Token.kind_eq_of_isKeyword hin]) fun s'' _ =>
              Gathers.pure rfl
        · exact Gathers.pure rfl
    · exact Gathers.pure rfl

theorem argumentEnd_passes (s : State) : Passes setting s argumentEnd := by
  refine Gathers.peek fun t rest hs => ?_
  split
  · next hsep =>
      have ht : t.kind ≠ .text := by
        intro htext
        simp [htext] at hsep
      exact Gathers.of_bind (Gathers.advance hs ht fun s' _ => Gathers.pure rfl)
  · exact Gathers.complain

theorem namedArgumentAhead_gathers {f : Bool → Parser β} {R : β → List Node → Prop} {s : State}
    {t : Token} {rest : List Token} (hs : s.unread = t :: rest)
    (hyes : ∀ u more, t.kind = .identifier → rest = u :: more → u.kind = .equals →
      Gathers setting s (f true) R)
    (hno : Gathers setting s (f false) R) :
    Gathers setting s (namedArgumentAhead t >>= f) R := by
  unfold namedArgumentAhead
  split
  · next ht =>
      rw [bind_assoc]
      refine Gathers.peekSecond hs (by simp [ht]) fun u more hrest => ?_
      rw [pure_bind]
      by_cases hu : u.kind = .equals
      · simpa only [hu, decide_true] using hyes u more ht hrest hu
      · simpa only [hu, decide_false] using hno
  · rwa [pure_bind]

/-- No function of the expression parser takes a text node off, at one amount of fuel. -/
structure ExpressionsPass (setting : Setting) (fuel : Nat) : Prop where
  expressionAt : ∀ level s, Passes setting s (expressionAt fuel level)
  infixes : ∀ level left s, Passes setting s (infixes fuel level left)
  applications : ∀ e s, Passes setting s (applications fuel e)
  atom : ∀ s, Passes setting s (atom fuel)
  argumentsFrom : ∀ args named s, Passes setting s (argumentsFrom fuel args named)
  filterArguments : ∀ args s, Passes setting s (filterArguments fuel args)

theorem expressionsPass_zero : ExpressionsPass setting 0 where
  expressionAt level s := by
    rw [expressionAt]
    exact Gathers.throw
  infixes level left s := by
    rw [infixes]
    exact Gathers.throw
  applications e s := by
    rw [applications]
    exact Gathers.throw
  atom s := by
    rw [atom]
    exact Gathers.throw
  argumentsFrom args named s := by
    rw [argumentsFrom]
    exact Gathers.throw
  filterArguments args s := by
    rw [filterArguments]
    exact Gathers.throw

section

variable {fuel : Nat} (ih : ExpressionsPass setting fuel)

include ih

theorem expressionAt_passes (level : Level) (s : State) :
    Passes setting s (expressionAt (fuel + 1) level) := by
  cases level with
  | negation =>
      rw [expressionAt]
      refine Gathers.peek fun t rest hs => ?_
      split
      · next ht =>
          refine Gathers.advance hs (by simp [Token.kind_eq_of_isKeyword ht]) fun s' _ => ?_
          refine Gathers.pass (ih.expressionAt .negation s') fun e s'' => ?_
          exact Gathers.join fun span => Gathers.pure rfl
      · exact ih.expressionAt .comparison s
  | sign =>
      rw [expressionAt]
      refine Gathers.peek fun t rest hs => ?_
      split
      · next op hop =>
          have ht : t.kind ≠ .text := by
            intro htext
            simp [signOperator?, htext] at hop
          refine Gathers.advance hs ht fun s' _ => ?_
          refine Gathers.pass (ih.expressionAt .sign s') fun e s'' => ?_
          exact Gathers.join fun span => Gathers.pure rfl
      · exact ih.expressionAt .application s
  | application =>
      rw [expressionAt]
      exact Gathers.pass (ih.atom s) fun e s' => ih.applications e s'
  | _ =>
      rw [expressionAt]
      · exact Gathers.pass (ih.expressionAt _ s) fun left s' => ih.infixes _ left s'
      all_goals rintro ⟨⟩

theorem infixes_passes (level : Level) (left : Expr) (s : State) :
    Passes setting s (infixes (fuel + 1) level left) := by
  rw [infixes]
  refine Gathers.pass (nextOperator?_passes level s) fun o s' => ?_
  cases o with
  | none => exact Gathers.pure rfl
  | some op =>
      refine Gathers.pass (ih.expressionAt level.tighter s') fun right s'' => ?_
      exact Gathers.join fun span => ih.infixes level _ s''

theorem atom_passes (s : State) : Passes setting s (atom (fuel + 1)) := by
  rw [atom]
  refine Gathers.peek fun t rest hs => ?_
  split
  · next ht => exact Gathers.advance hs (by simp [ht]) fun s' _ => Gathers.pure rfl
  · next ht => exact Gathers.advance hs (by simp [ht]) fun s' _ => Gathers.pure rfl
  · next ht =>
      refine Gathers.advance hs (by simp [ht]) fun s' _ => ?_
      split
      · exact Gathers.pure rfl
      · exact Gathers.throw
  · next ht =>
      split
      · exact Gathers.advance hs (by simp [ht]) fun s' _ => Gathers.pure rfl
      · exact Gathers.complain
  · next ht =>
      refine Gathers.advance hs (by simp [ht]) fun s' _ => ?_
      refine Gathers.pass (ih.expressionAt .disjunction s') fun e s'' => ?_
      exact Gathers.expect (by decide) fun close s₃ => Gathers.pure rfl
  · exact Gathers.complain

theorem applications_passes (e : Expr) (s : State) :
    Passes setting s (applications (fuel + 1) e) := by
  rw [applications]
  refine Gathers.peek fun t rest hs => ?_
  split
  · next ht =>
      refine Gathers.advance hs (by simp [ht]) fun s' _ => ?_
      refine Gathers.expect (by decide) fun name s'' => ?_
      exact Gathers.join fun span => ih.applications _ s''
  · next ht =>
      refine Gathers.advance hs (by simp [ht]) fun s' _ => ?_
      refine Gathers.pass (ih.expressionAt .disjunction s') fun position s'' => ?_
      refine Gathers.expect (by decide) fun close s₃ => ?_
      exact Gathers.join fun span => ih.applications _ s₃
  · next ht =>
      refine Gathers.advance hs (by simp [ht]) fun s' _ => ?_
      refine Gathers.pass (ih.argumentsFrom [] [] s') fun args s'' => ?_
      exact Gathers.join fun argsSpan => Gathers.join fun span => ih.applications _ s''
  · next ht =>
      refine Gathers.advance hs (by simp [ht]) fun s' _ => ?_
      refine Gathers.expect (by decide) fun name s'' => Gathers.peek fun next rest' hs'' => ?_
      split
      · next hopen =>
          refine Gathers.advance hs'' (by simp [hopen]) fun s₃ _ => ?_
          refine Gathers.pass (ih.filterArguments [] s₃) fun args s₄ => ?_
          exact Gathers.join fun span => ih.applications _ s₄
      · exact Gathers.join fun span => ih.applications _ s''
  · exact Gathers.pure rfl

theorem afterArgument_passes (args : List Expr) (named : List (NamedArgument Expr)) (s : State) :
    Passes setting s (do
      let sep ← argumentEnd
      if sep.kind = .comma then argumentsFrom fuel args named else return ⟨args, named, sep⟩) := by
  refine Gathers.pass (argumentEnd_passes s) fun sep s' => ?_
  split
  · exact ih.argumentsFrom args named s'
  · exact Gathers.pure rfl

theorem argumentsFrom_passes (args : List Expr) (named : List (NamedArgument Expr)) (s : State) :
    Passes setting s (argumentsFrom (fuel + 1) args named) := by
  rw [argumentsFrom]
  refine Gathers.peek fun t rest hs => ?_
  split
  · next ht => exact Gathers.advance hs (by simp [ht]) fun s' _ => Gathers.pure rfl
  · refine namedArgumentAhead_gathers hs (fun u more ht hrest hu => ?_) ?_
    · refine Gathers.advance hs (by simp [ht]) fun s' hs' => ?_
      have hs' : s'.unread = u :: more := (hs' (by simp [ht])).trans hrest
      refine Gathers.advance hs' (by simp [hu]) fun s'' _ => ?_
      refine Gathers.pass (ih.expressionAt .disjunction s'') fun value s₃ => ?_
      exact Gathers.join fun span => afterArgument_passes ih args _ s₃
    · refine Gathers.pass (ih.expressionAt .disjunction s) fun value s' => ?_
      exact afterArgument_passes ih _ named s'

theorem filterArguments_passes (args : List Expr) (s : State) :
    Passes setting s (filterArguments (fuel + 1) args) := by
  rw [filterArguments]
  refine Gathers.peek fun t rest hs => ?_
  split
  · next ht => exact Gathers.advance hs (by simp [ht]) fun s' _ => Gathers.pure rfl
  · refine Gathers.pass (ih.expressionAt .disjunction s) fun value s' => ?_
    refine Gathers.pass (argumentEnd_passes s') fun sep s'' => ?_
    split
    · exact ih.filterArguments _ s''
    · exact Gathers.pure rfl

end

theorem expressionsPass (setting : Setting) : ∀ fuel, ExpressionsPass setting fuel
  | 0 => expressionsPass_zero
  | fuel + 1 =>
      have ih := expressionsPass setting fuel
      { expressionAt := expressionAt_passes ih
        infixes := infixes_passes ih
        applications := applications_passes ih
        atom := atom_passes ih
        argumentsFrom := argumentsFrom_passes ih
        filterArguments := filterArguments_passes ih }

theorem expression_passes (s : State) : Passes setting s expression := by
  have h := (expressionsPass setting (expressionFuel s.unread.length)).expressionAt
    .disjunction s
  unfold Passes Gathers Ends at h ⊢
  rwa [expression]

theorem arguments_passes (s : State) : Passes setting s arguments := by
  have h := (expressionsPass setting (expressionFuel s.unread.length)).argumentsFrom
    [] [] s
  unfold Passes Gathers Ends at h ⊢
  rwa [arguments]

/-! ## Headers and tags without a body -/

theorem expectBlockEnd_passes (s : State) : Passes setting s expectBlockEnd :=
  Gathers.of_bind (Gathers.expect (by decide) fun _ _ => Gathers.pure rfl)

theorem blockEnd_passes {b : α} (s : State) :
    Passes setting s (do let _ ← expectBlockEnd; return b) :=
  Gathers.pass (expectBlockEnd_passes s) fun _ _ => Gathers.pure rfl

theorem endTag_passes (word : String) {s : State} {t : Token} {rest : List Token}
    (hs : s.unread = t :: rest) (ht : t.kind ≠ .text) : Passes setting s (endTag word) :=
  Gathers.advance hs ht fun _ _ => Gathers.expectKeyword fun _ s' => blockEnd_passes s'

theorem comment_passes {s : State} {t : Token} {rest : List Token}
    (hs : s.unread = t :: rest) (ht : t.kind ≠ .text) : Passes setting s comment :=
  Gathers.advance hs ht fun _ _ => Gathers.expect (by decide) fun _ _ =>
    Gathers.expect (by decide) fun _ _ => Gathers.pure rfl

theorem targetsFrom_passes : ∀ (fuel : Nat) (targets : List String) (s : State),
    Passes setting s (targetsFrom fuel targets)
  | 0, _, _ => Gathers.throw
  | fuel + 1, targets, s => by
      refine Gathers.peek fun t rest hs => ?_
      split
      · next ht =>
          refine Gathers.advance hs (by simp [ht]) fun s' _ => ?_
          exact Gathers.expect (by decide) fun name s'' => targetsFrom_passes fuel _ s''
      · exact Gathers.pure rfl

theorem parameterDefault_passes (s : State) : Passes setting s parameterDefault := by
  refine Gathers.peek fun t rest hs => ?_
  split
  · next ht =>
      refine Gathers.advance hs (by simp [ht]) fun s' _ => Gathers.peek fun next _ _ => ?_
      split
      · exact Gathers.pass (expression_passes s') fun _ _ => Gathers.pure rfl
      · exact Gathers.complain
  · exact Gathers.pure rfl

/-- Behind a parameter: a comma and further parameters, or the parenthesis that ends them. -/
theorem parametersBehind_passes {unit name : String} {fuel : Nat}
    (ih : ∀ ps s, Passes setting s (parametersFrom unit name fuel ps)) (ps : List (Parameter Expr))
    (s : State) : Passes setting s (parametersBehind unit name fuel ps) := by
  refine Gathers.peek fun sep rest hs => ?_
  split
  · next hsep => exact Gathers.advance hs (by simp [hsep]) fun s' _ => ih ps s'
  · next hsep => exact Gathers.advance hs (by simp [hsep]) fun _ _ => Gathers.pure rfl
  · exact Gathers.complain

theorem parametersFrom_passes (unit name : String) (fuel : Nat) (ps : List (Parameter Expr))
    (s : State) : Passes setting s (parametersFrom unit name fuel ps) := by
  induction fuel generalizing ps s with
  | zero => exact Gathers.throw
  | succ fuel ih =>
      rw [parametersFrom_succ]
      refine Gathers.peek fun t rest hs => ?_
      split
      · next ht => exact Gathers.advance hs (by simp [ht]) fun _ _ => Gathers.pure rfl
      · next ht =>
          refine Gathers.advance hs (by simp [ht]) fun s₁ _ => ?_
          refine Gathers.pass (parameterDefault_passes s₁) fun default s₂ => ?_
          split
          · refine Gathers.note fun s' => ?_
            rw [pure_bind]
            exact parametersBehind_passes ih ps s'
          · refine Gathers.spanFrom fun span => ?_
            rw [pure_bind]
            exact parametersBehind_passes ih _ s₂
      · exact Gathers.complain

variable {s : State} {t : Token} {rest : List Token} (hs : s.unread = t :: rest)
  (ht : t.kind ≠ .text)

include hs ht

theorem condition_passes : Passes setting s condition :=
  Gathers.advance hs ht fun s' _ => Gathers.pass (expression_passes s') fun _ s'' =>
    blockEnd_passes s''

theorem loopHeader_passes : Passes setting s loopHeader := by
  refine Gathers.advance hs ht fun s₁ _ => Gathers.expect (by decide) fun first s₂ => ?_
  refine Gathers.get (Gathers.pass (targetsFrom_passes _ _ s₂) fun targets s₃ => ?_)
  refine Gathers.expectKeyword fun _ s₄ => Gathers.pass (expression_passes s₄) fun _ s₅ => ?_
  exact blockEnd_passes s₅

theorem definitionHeader_passes : Passes setting s (definitionHeader setting) := by
  refine Gathers.advance hs ht fun s₁ _ => Gathers.expect (by decide) fun name s₂ => ?_
  refine Gathers.expect (by decide) fun opening s₃ => Gathers.get ?_
  exact Gathers.pass (parametersFrom_passes _ _ _ [] s₃) fun _ s₄ => blockEnd_passes s₄

theorem callHeader_passes : Passes setting s callHeader := by
  refine Gathers.advance hs ht fun s₁ _ => Gathers.expect (by decide) fun name s₂ => ?_
  refine Gathers.expect (by decide) fun opening s₃ => ?_
  refine Gathers.pass (arguments_passes s₃) fun args s₄ => ?_
  exact Gathers.join fun argsSpan => Gathers.join fun span => blockEnd_passes s₄

end

end TemplateCompiler.Parser
