import TemplateCompiler.Proofs.SpannedExpressions
import TemplateCompiler.Proofs.StatementTotal

/-!
# The spans of templates

A parser stands at the end of the last token it took, and whatever it returns stands in front of
that place. `Lays unit s p Q` is the statement about one run from tokens in order: it only moves on,
also when it stops, and `Q` holds of its result and of the place it reaches. For a part of a tag,
`Q` says that the tree of the result stands between the place reached before and the one reached
behind; for a statement, whose opening delimiter is read before it is known what it is, that it
stands behind the start of that delimiter.

A block that is broken leaves nothing behind, so what is kept around it still stands in a row. A
list of nodes that is read without a complaint ends directly behind a text or a tag (`State.Rests`).
-/

namespace TemplateCompiler.Parser

open Template (Expr Node exprTrees namedTrees nodeTrees armTrees)
open SpanTree (Row)

variable {α β : Type}

/-! ## Tokens in a row -/

/-- The tokens ahead stand in order, in one unit. -/
structure State.InUnit (s : State) (unit : String) : Prop where
  ordered : s.Ordered
  units : ∀ t ∈ s.unread, t.span.unit = unit

/-- Tokens in order stand in a row, up to the end of the last. -/
theorem row_leaves {unit : String} {ts : List Token} {lo : Nat}
    (hapart : ts.Pairwise fun t u => t.span.stop.offset ≤ u.span.start.offset)
    (hforward : ∀ t ∈ ts, t.span.start.offset ≤ t.span.stop.offset)
    (hunits : ∀ t ∈ ts, t.span.unit = unit) (hbehind : ∀ t ∈ ts, lo ≤ t.span.start.offset) :
    Row unit lo (ts.map Token.leaf) ((ts.getLast?.map (·.span.stop.offset)).getD lo) := by
  induction ts generalizing lo with
  | nil => exact Nat.le_refl lo
  | cons t ts ih =>
      obtain ⟨hfirst, hapart⟩ := List.pairwise_cons.mp hapart
      obtain ⟨ht, hforward⟩ := List.forall_mem_cons.mp hforward
      obtain ⟨hunit, hunits⟩ := List.forall_mem_cons.mp hunits
      have hlast : (((t :: ts).getLast?.map (·.span.stop.offset)).getD lo) =
          (ts.getLast?.map (·.span.stop.offset)).getD t.span.stop.offset := by
        rw [List.getLast?_cons]
        cases ts.getLast? <;> rfl
      rw [hlast]
      exact ⟨hbehind t List.mem_cons_self, .leaf hunit ht, ih hapart hforward hunits hfirst⟩

/-- The tokens that were taken stand between the places reached before and behind them. -/
theorem Scope.Onward.row {scope : Scope} {unit : String} {s s' : State} {us : List Token}
    (h : scope.Onward s s') (hs : s.InUnit unit) (hus : s.unread = us ++ s'.unread) :
    Row unit s.reached (us.map Token.leaf) s'.reached := by
  have hmem : ∀ t ∈ us, t ∈ s.unread := fun t ht => hus ▸ List.mem_append_left _ ht
  have hreached : s'.reached = (us.getLast?.map (·.span.stop.offset)).getD s.reached := by
    unfold State.reached
    rw [h.previous us hus]
    cases us.getLast? <;> rfl
  rw [hreached]
  exact row_leaves (hs.ordered.apart.sublist (hus ▸ List.sublist_append_left us s'.unread))
    (fun t ht => hs.ordered.forward t (hmem t ht)) (fun t ht => hs.units t (hmem t ht))
    fun t ht => hs.ordered.behind t (hmem t ht)

theorem Scope.Onward.inUnit {scope : Scope} {unit : String} {s s' : State} (h : scope.Onward s s')
    (hs : s.InUnit unit) : s'.InUnit unit := by
  obtain ⟨us, hus, -⟩ := h.ahead
  exact ⟨h.ordered, fun t ht => hs.units t (hus ▸ List.mem_append_right us ht)⟩

theorem State.Took.row {unit : String} {s s' : State} {t : Token} (h : s.Took t s')
    (hs : s.InUnit unit) : Row unit s.reached [t.leaf] s'.reached :=
  ⟨h.start, .leaf (hs.units t (h.unread ▸ List.mem_cons_self)) h.forward,
    Nat.le_of_eq h.reached.symm⟩

/-! ## Runs -/

/-- From `s` on, `p` takes tokens only, and `Q` holds of what it returns. -/
def Lays (unit : String) (s : State) (p : Parser α) (Q : α → State → Prop) : Prop :=
  s.InUnit unit → Ends p s (fun a s' => Scope.any.Onward s s' ∧ Q a s')
    fun _ s' => Scope.any.Onward s s'

namespace Lays

variable {unit : String} {s : State} {p : Parser α} {f : α → Parser β} {P Q : α → State → Prop}
  {R : β → State → Prop}

theorem imp (h : Lays unit s p P) (hQ : ∀ a s', Scope.any.Onward s s' → P a s' → Q a s') :
    Lays unit s p Q :=
  fun hs => (h hs).imp (fun a s' ⟨ho, ha⟩ => ⟨ho, hQ a s' ho ha⟩) fun _ _ he => he

theorem of_moves {scope : Scope} (h : Moves scope s p Q) : Lays unit s p Q :=
  fun hs => (h hs.ordered).imp (fun _ _ ⟨ho, ha⟩ => ⟨ho.any, ha⟩) fun _ _ ⟨ho, _⟩ => ho.any

/-- What is known of the tokens that are read, and of the place where they end. -/
theorem of_reads {scope : Scope} {P : α → State → Prop} {S : α → List Token → Prop}
    (hm : Moves scope s p P) (hr : Reads [] s p S)
    (h : ∀ a us s', S a us → Row unit s.reached (us.map Token.leaf) s'.reached → Q a s') :
    Lays unit s p Q := by
  intro hs
  refine ((hm hs.ordered).and hr).imp ?_ fun _ _ ⟨⟨ho, _⟩, _⟩ => ho.any
  rintro a s' ⟨⟨ho, -⟩, us, hus, ha⟩
  exact ⟨ho.any, h a us s' ha (ho.row hs hus)⟩

theorem pure {a : α} (h : Q a s) : Lays unit s (Pure.pure a) Q :=
  fun hs => Ends.pure ⟨.refl hs.ordered, h⟩

theorem throw {e : Stop} : Lays unit s (MonadExcept.throw e : Parser α) Q :=
  fun hs => Ends.throw (.refl hs.ordered)

theorem complain {problem : SyntaxProblem} {span : Span} :
    Lays unit s (complain problem span : Parser α) Q :=
  throw

theorem bind (hp : Lays unit s p P)
    (hf : ∀ a s', Scope.any.Onward s s' → P a s' → Lays unit s' (f a) R) :
    Lays unit s (p >>= f) R :=
  fun hs => Ends.bind (hp hs) fun a s' ⟨ho, ha⟩ =>
    (hf a s' ho ha (ho.inUnit hs)).imp (fun _ _ ⟨ho', hb⟩ => ⟨ho.trans ho', hb⟩)
      fun _ _ ho' => ho.trans ho'

/-- A step of which more is known than what it lays. -/
theorem bind_of {S : α → State → Prop} (hp : Lays unit s p P) (hS : Ends p s S fun _ _ => True)
    (hf : ∀ a s', Scope.any.Onward s s' → P a s' → S a s' → Lays unit s' (f a) R) :
    Lays unit s (p >>= f) R := by
  refine bind (P := fun a s' => P a s' ∧ S a s') (fun hs => ?_) fun a s' ho ⟨ha, ha'⟩ =>
    hf a s' ho ha ha'
  exact ((hp hs).and hS).imp (fun _ _ ⟨⟨ho, ha⟩, ha'⟩ => ⟨ho, ha, ha'⟩) fun _ _ ⟨ho, _⟩ => ho

theorem map {g : α → β} (hp : Lays unit s p P)
    (hg : ∀ a s', Scope.any.Onward s s' → P a s' → R (g a) s') : Lays unit s (g <$> p) R :=
  bind hp fun a s' ho ha => pure (hg a s' ho ha)

/-- A step that is known to succeed and leaves the state as it is. -/
theorem step {a : α} (hp : p s = .ok a s) (hf : Lays unit s (f a) R) : Lays unit s (p >>= f) R :=
  fun hs => Ends.step hp (hf hs)

/-- A step that is known to stop. -/
theorem stop {e : Stop} (hp : p s = .error e s) : Lays unit s (p >>= f) R := by
  intro hs
  unfold Ends
  rw [bind_apply_of_error hp]
  exact .refl hs.ordered

section

variable {f : Token → Parser β} {t : Token} {rest : List Token}

theorem peek (h : ∀ t rest, s.unread = t :: rest → Lays unit s (f t) R) :
    Lays unit s (peek >>= f) R := by
  cases hs : s.unread with
  | nil => exact stop (by rw [Parser.peek, hs])
  | cons t rest => exact step (peek_eq hs) (h t rest hs)

theorem advance (hs : s.unread = t :: rest) (ht : t.kind ≠ .eof)
    (h : ∀ s', s.Took t s' → Row unit s.reached [t.leaf] s'.reached → Lays unit s' (f t) R) :
    Lays unit s (advance >>= f) R := by
  intro hu
  have hmoves : Moves .any s Parser.advance fun u s' => u = t ∧ s.Took t s' :=
    Moves.of_bind (Moves.advance hs ht rfl fun s' htook => Moves.pure ⟨rfl, htook⟩)
  refine bind (of_moves hmoves) ?_ hu
  rintro _ s' - ⟨rfl, htook⟩
  exact h s' htook (htook.row hu)

theorem expect {kind : TokenKind} {problem : SyntaxProblem} (hne : kind ≠ .eof)
    (h : ∀ t s', t.kind = kind → s.Took t s' → Row unit s.reached [t.leaf] s'.reached →
      Lays unit s' (f t) R) : Lays unit s (expect kind problem >>= f) R := by
  intro hu
  have hmoves : Moves .any s (Parser.expect kind problem) fun t s' => t.kind = kind ∧ s.Took t s' :=
    Moves.of_bind (Moves.expect hne rfl rfl fun t s' ht htook => Moves.pure ⟨ht, htook⟩)
  refine bind (of_moves hmoves) ?_ hu
  rintro t s' - ⟨ht, htook⟩
  exact h t s' ht htook (htook.row hu)

theorem expectKeyword {word : String} (h : ∀ t s', s.Took t s' → Lays unit s' (f t) R) :
    Lays unit s (expectKeyword word >>= f) R := by
  have hmoves : Moves .any s (Parser.expectKeyword word) fun t s' => s.Took t s' :=
    Moves.of_bind (Moves.expectKeyword rfl rfl fun t s' _ htook => Moves.pure htook)
  exact bind (of_moves hmoves) fun t s' _ htook => h t s' htook

end

theorem get {f : State → Parser β} (h : Lays unit s (f s) R) :
    Lays unit s (MonadState.get >>= f) R :=
  step rfl h

theorem join {a b : Span} {f : Span → Parser β}
    (h : ∀ span, a.upTo b = .ok span → Lays unit s (f span) R) :
    Lays unit s (join a b >>= f) R := by
  cases hspan : a.upTo b with
  | ok span => exact step (by rw [Parser.join, hspan]; rfl) (h span hspan)
  | error r => exact stop (by rw [Parser.join, hspan]; rfl)

/-- A span up to the place that is reached. -/
theorem spanFrom {start : Position} {f : Span → Parser β} (hs : s.previous ≠ none)
    (h : ∀ span : Span, span.start = start → span.stop.offset = s.reached → span.unit = unit →
      Lays unit s (f span) R) : Lays unit s (spanFrom unit start >>= f) R := by
  obtain ⟨t, ht⟩ := Option.ne_none_iff_exists'.mp hs
  have hreached : s.reached = t.span.stop.offset := by
    rw [State.reached, ht]
  have hspan := spanFrom_eq (State.lastEnd?_of_previous ht) unit start
  unfold Span.between at hspan
  split at hspan
  · exact stop hspan
  · exact step hspan (h _ rfl hreached.symm rfl)

theorem note {c : Complaint} {f : Unit → Parser β}
    (h : ∀ s', s'.reached = s.reached → Lays unit s' (f ()) R) :
    Lays unit s (note c >>= f) R := by
  have hmoves : Moves .any s (Parser.note c) fun _ s' => s'.reached = s.reached :=
    Moves.of_bind (Moves.note rfl fun _ _ _ hreached => Moves.pure hreached)
  exact bind (of_moves hmoves) fun _ s' _ hreached => h s' hreached

/-- What is kept of a tag. Where it is skipped a complaint is left behind. -/
theorem recovering (hp : Lays unit s p P) :
    Lays unit s (recovering p) fun o s' =>
      (∀ a, o = some a → P a s') ∧ (o = none → s'.complaints ≠ []) := by
  intro hs
  refine Ends.tryCatch (F := fun _ s' => Scope.any.Onward s s') ?_ ?_
  · exact Ends.map (hp hs) fun a s' ⟨ho, ha⟩ => ⟨ho, by rintro _ ⟨⟩; exact ha, nofun⟩
  · intro e s' ho
    cases e with
    | complaint c =>
        have hrecovers := Moves.after ho
          (Moves.map (g := fun _ => (none : Option α))
            (R := fun o s' => o = none ∧ s'.complaints ≠ []) (recover_moves c s')
            fun _ _ _ h => ⟨rfl, h⟩)
        refine hrecovers.imp ?_ fun _ _ ⟨ho', _⟩ => ho'
        rintro _ s'' ⟨ho', rfl, hcomplaints⟩
        exact ⟨ho', nofun, fun _ => hcomplaints⟩
    | _ => exact Ends.throw ho

end Lays

/-! ## Expressions -/

/-- The tree of what is read stands between the places reached before it and behind it. -/
def LaysTrees (unit : String) (s : State) (p : Parser α) (trees : α → List SpanTree) : Prop :=
  Lays unit s p fun a s' => Row unit s.reached (trees a) s'.reached

theorem expression_lays (unit : String) (s : State) :
    LaysTrees unit s expression fun e => [e.spanTree] :=
  Lays.of_reads (expression_moves s) (expression_reads s) fun _ _ _ he hus => he.rows hus

/-- Arguments and the parenthesis behind them. -/
theorem arguments_lays (unit : String) (s : State) :
    Lays unit s arguments fun a s' => ∃ mid,
      Phrase.Rows unit s.reached mid (.arguments a.positional a.named) ∧
        Row unit mid [a.close.leaf] s'.reached := by
  refine Lays.of_reads (arguments_moves s) (arguments_reads s) fun a us s' ha hus => ?_
  obtain ⟨vs, rfl, -, ha⟩ := ha
  rw [List.map_append] at hus
  obtain ⟨mid, hvs, hclose⟩ := SpanTree.row_append_iff.mp hus
  exact ⟨mid, ha.rows hvs, hclose⟩

/-! ## Headers and tags without a body -/

/-- The parser is directly behind a text or a tag, or at the start. -/
def State.Rests (s : State) : Prop :=
  ∀ t, s.previous = some t → t.kind = .text ∨ t.kind.isCloser

theorem State.Took.rests {s s' : State} {t : Token} (h : s.Took t s')
    (ht : t.kind = .text ∨ t.kind.isCloser) : s'.Rests := by
  intro u hu
  obtain rfl := Option.some.inj (hu.symm.trans h.previous)
  exact ht

theorem State.Took.previous_ne {s s' : State} {t : Token} (h : s.Took t s') :
    s'.previous ≠ none := by
  rw [h.previous]
  exact nofun

/-- The opening delimiter of a tag was read. -/
structure State.Opened (s : State) (opening : Token) : Prop where
  start_le : opening.span.start.offset ≤ s.reached
  previous : s.previous ≠ none

theorem State.Opened.after {s s' : State} {opening : Token} (h : s.Opened opening)
    (ho : Scope.any.Onward s s') : s'.Opened opening :=
  ⟨Nat.le_trans h.start_le ho.reached, fun hnone => h.previous (ho.taken hnone).2⟩

theorem State.Took.opened {s s' : State} {t : Token} (h : s.Took t s') : s'.Opened t :=
  ⟨h.start_le_reached, h.previous_ne⟩

/-- A span over all that was read behind an opening delimiter. -/
theorem row_opened {unit : String} {opening : Token} {span : Span} {ts : List SpanTree}
    {s s' : State} (h : s.Opened opening) (hts : Row unit s.reached ts s'.reached)
    (hstart : span.start = opening.span.start) (hstop : span.stop.offset = s'.reached)
    (hunit : span.unit = unit) :
    Row unit opening.span.start.offset [.node span [ts]] s'.reached := by
  refine ⟨Nat.le_of_eq (by rw [SpanTree.span_node, hstart]), .of_row hunit ?_, Nat.le_of_eq hstop⟩
  rw [hstart, hstop]
  exact hts.widen h.start_le (Nat.le_refl _)

section

variable {unit : String} {s : State} {t : Token} {rest : List Token} (hs : s.unread = t :: rest)
  (ht : t.kind ≠ .eof)

include hs ht

theorem condition_lays : LaysTrees unit s condition fun e => [e.spanTree] := by
  refine Lays.advance hs ht fun s₁ htook _ => ?_
  refine Lays.bind (expression_lays unit s₁) fun e s₂ _ he => ?_
  refine Lays.expect (by decide) fun close s₃ _ htook₃ _ => Lays.pure ?_
  exact he.widen htook.le_reached htook₃.le_reached

theorem loopHeader_lays : LaysTrees unit s loopHeader fun r => [r.2.spanTree] := by
  refine Lays.advance hs ht fun s₁ htook _ => ?_
  refine Lays.expect (by decide) fun first s₂ _ htook₂ _ => Lays.get ?_
  refine Lays.bind (Lays.of_moves (targetsFrom_moves _ _ s₂ (Nat.lt_succ_self _))) ?_
  intro targets s₃ ho _
  refine Lays.expectKeyword fun _ s₄ htook₄ => ?_
  refine Lays.bind (expression_lays unit s₄) fun e s₅ _ he => ?_
  refine Lays.expect (by decide) fun close s₆ _ htook₆ _ => Lays.pure ?_
  refine he.widen ?_ htook₆.le_reached
  exact Nat.le_trans htook.le_reached
    (Nat.le_trans htook₂.le_reached (Nat.le_trans ho.reached htook₄.le_reached))

omit hs ht in
theorem parameterDefault_lays (unit : String) (s : State) :
    LaysTrees unit s parameterDefault fun o => o.toList.map Expr.spanTree := by
  refine Lays.peek fun t rest hs => ?_
  split
  · next ht =>
      refine Lays.advance hs (by simp [ht]) fun s' htook _ => Lays.peek fun next _ _ => ?_
      split
      · refine Lays.bind (expression_lays unit s') fun e s'' _ he => Lays.pure ?_
        exact he.widen htook.le_reached (Nat.le_refl _)
      · exact Lays.complain
  · exact Lays.pure (Nat.le_refl _)

omit hs ht in
theorem parametersBehind_lays {unit name : String} {lo fuel : Nat}
    (ih : ∀ ps s, Row unit lo (ps.map Parameter.spanTree) s.reached →
      Lays unit s (parametersFrom unit name fuel ps) fun ps s' =>
        Row unit lo (ps.map Parameter.spanTree) s'.reached)
    {ps : List (Parameter Expr)} {s : State}
    (hps : Row unit lo (ps.map Parameter.spanTree) s.reached) :
    Lays unit s (parametersBehind unit name fuel ps) fun ps s' =>
      Row unit lo (ps.map Parameter.spanTree) s'.reached := by
  refine Lays.peek fun sep rest hs => ?_
  split
  · next hsep =>
      refine Lays.advance hs (by simp [hsep]) fun s' htook _ => ?_
      exact ih ps s' (hps.widen (Nat.le_refl _) htook.le_reached)
  · next hsep =>
      refine Lays.advance hs (by simp [hsep]) fun s' htook _ => Lays.pure ?_
      exact hps.widen (Nat.le_refl _) htook.le_reached
  · exact Lays.complain

omit hs ht in
/-- Parameters behind those already read. -/
theorem parametersFrom_lays (unit name : String) {lo : Nat} (fuel : Nat)
    (ps : List (Parameter Expr)) (s : State)
    (hps : Row unit lo (ps.map Parameter.spanTree) s.reached) :
    Lays unit s (parametersFrom unit name fuel ps) fun ps s' =>
      Row unit lo (ps.map Parameter.spanTree) s'.reached := by
  induction fuel generalizing ps s with
  | zero => exact Lays.throw
  | succ fuel ih =>
      rw [parametersFrom_succ]
      refine Lays.peek fun t rest hs => ?_
      split
      · next ht =>
          refine Lays.advance hs (by simp [ht]) fun s' htook _ => Lays.pure ?_
          exact hps.widen (Nat.le_refl _) htook.le_reached
      · next ht =>
          refine Lays.advance hs (by simp [ht]) fun s₁ htook _ => ?_
          refine Lays.bind (parameterDefault_lays unit s₁) fun default s₂ ho hdefault => ?_
          have hps₂ := hps.widen (Nat.le_refl lo) (Nat.le_trans htook.le_reached ho.reached)
          split
          · refine Lays.note fun s₃ hreached => ?_
            rw [pure_bind]
            exact parametersBehind_lays ih (hreached ▸ hps₂)
          · refine Lays.spanFrom (htook.opened.after ho).previous fun span hstart hstop hunit => ?_
            rw [pure_bind]
            refine parametersBehind_lays ih ?_
            rw [List.map_append]
            have hp := row_opened htook.opened hdefault hstart hstop hunit
            exact (hps.widen (Nat.le_refl lo) htook.start).append hp
      · exact Lays.complain

theorem definitionHeader_lays (setting : Setting) (hunit : setting.unit = unit) :
    LaysTrees unit s (definitionHeader setting) fun r =>
      r.1.leaf :: r.2.map Parameter.spanTree := by
  subst hunit
  refine Lays.advance hs ht fun s₁ htook _ => ?_
  refine Lays.expect (by decide) fun name s₂ _ _ hname => ?_
  refine Lays.expect (by decide) fun opening s₃ _ htook₃ _ => Lays.get ?_
  refine Lays.bind (parametersFrom_lays setting.unit _ _ [] s₃ (Nat.le_refl s₃.reached)) ?_
  intro params s₄ _ hparams
  refine Lays.expect (by decide) fun close s₅ _ htook₅ _ => Lays.pure ?_
  exact (hname.widen htook.le_reached htook₃.le_reached).append
    (hparams.widen (Nat.le_refl _) htook₅.le_reached)

theorem callHeader_lays : LaysTrees unit s callHeader fun call => [call.spanTree] := by
  refine Lays.advance hs ht fun s₁ htook _ => ?_
  refine Lays.expect (by decide) fun name s₂ _ _ hname => ?_
  refine Lays.expect (by decide) fun opening s₃ _ _ hopen => ?_
  refine Lays.bind (arguments_lays unit s₃) fun args s₄ _ hargs => ?_
  obtain ⟨mid, hargs, hclose⟩ := hargs
  refine Lays.join fun argsSpan hargsSpan => Lays.join fun span hspan => ?_
  refine Lays.expect (by decide) fun close s₅ _ htook₅ _ => Lays.pure ?_
  have hclosed : Row unit mid [args.close.leaf] args.close.span.stop.offset :=
    ⟨hclose.1, hclose.2.1, Nat.le_refl _⟩
  have hlist := row_parenthesized hopen hargs hclosed hargsSpan
  refine SpanTree.row_join hspan hname.2.1.unit_eq ?_ (hlist.widen ?_ (Nat.le_refl _)) ?_
  · exact Nat.le_trans htook.le_reached hname.1
  · exact Nat.le_trans hname.2.1.forward hname.2.2
  · exact Nat.le_trans hclose.2.2 htook₅.le_reached

theorem inclusion_lays (setting : Setting) (hunit : setting.unit = unit) {opening : Token}
    (hopen : s.Opened opening) :
    Lays unit s (inclusion setting opening) fun n s' =>
      Row unit opening.span.start.offset [n.spanTree] s'.reached ∧ s'.Rests := by
  subst hunit
  refine Lays.advance hs ht fun s₁ htook _ => ?_
  refine Lays.expect (by decide) fun path s₂ _ htook₂ _ => ?_
  refine Lays.expect (by decide) fun close s₃ hclose htook₃ _ => ?_
  refine Lays.spanFrom htook₃.previous_ne fun span hstart hstop hunit => Lays.pure ⟨?_, ?_⟩
  · refine ⟨Nat.le_of_eq (by rw [Node.spanTree, SpanTree.span_node, hstart]),
      .leaf hunit ?_, Nat.le_of_eq hstop⟩
    have hle := hopen.start_le
    have hle₁ := htook.le_reached
    have hle₂ := htook₂.le_reached
    have hle₃ := htook₃.le_reached
    rw [hstart, hstop]
    omega
  · exact htook₃.rests (.inr (by rw [hclose]; rfl))

theorem assignment_lays (setting : Setting) (hunit : setting.unit = unit) {opening : Token}
    (hopen : s.Opened opening) :
    Lays unit s (assignment setting opening) fun n s' =>
      Row unit opening.span.start.offset [n.spanTree] s'.reached ∧ s'.Rests := by
  subst hunit
  refine Lays.advance hs ht fun s₁ htook _ => ?_
  refine Lays.expect (by decide) fun name s₂ _ htook₂ _ => ?_
  refine Lays.expect (by decide) fun equals s₃ _ htook₃ _ => ?_
  refine Lays.bind (expression_lays setting.unit s₃) fun value s₄ _ hvalue => ?_
  refine Lays.expect (by decide) fun close s₅ hclose htook₅ _ => ?_
  refine Lays.spanFrom htook₅.previous_ne fun span hstart hstop hunit => Lays.pure ⟨?_, ?_⟩
  · refine row_opened hopen (hvalue.widen ?_ htook₅.le_reached) hstart hstop hunit
    exact Nat.le_trans htook.le_reached (Nat.le_trans htook₂.le_reached htook₃.le_reached)
  · exact htook₅.rests (.inr (by rw [hclose]; rfl))

theorem output_lays (setting : Setting) (hunit : setting.unit = unit) :
    Lays unit s (output setting) fun n s' =>
      Row unit s.reached [n.spanTree] s'.reached ∧ s'.Rests := by
  subst hunit
  refine Lays.advance hs ht fun s₁ htook _ => ?_
  refine Lays.bind (expression_lays setting.unit s₁) fun e s₂ _ he => ?_
  refine Lays.expect (by decide) fun close s₃ hclose htook₃ _ => ?_
  refine Lays.spanFrom htook₃.previous_ne fun span hstart hstop hunit => Lays.pure ⟨?_, ?_⟩
  · have hrow := row_opened htook.opened (he.widen (Nat.le_refl _) htook₃.le_reached) hstart hstop
      hunit
    exact hrow.widen htook.start (Nat.le_refl _)
  · exact htook₃.rests (.inr (by rw [hclose]; rfl))

end

/-! ## Text, comments and end tags -/

theorem text_lays (unit : String) (setting : Setting) {s : State} {t : Token} {rest : List Token}
    (hs : s.unread = t :: rest) (ht : t.kind = .text) :
    Lays unit s (text setting) fun o s' =>
      Row unit s.reached (nodeTrees o.toList) s'.reached ∧ s'.Rests := by
  refine Lays.advance hs (by simp [ht]) fun s₁ htook hrow => ?_
  have hkept : ∀ value : List Char, Row unit s.reached (nodeTrees (if value.isEmpty then none
      else some (Node.text (String.ofList value) t.span)).toList) s₁.reached := by
    intro value
    split
    · exact hrow.le
    · exact hrow
  refine Lays.of_moves (?_ : Moves .any _ _ _)
  refine Moves.peek fun following _ _ => Moves.get (Moves.modify rfl rfl rfl rfl (Moves.pure ?_))
  exact ⟨hkept _, htook.rests (.inl ht)⟩

theorem comment_lays (unit : String) {s : State} {t : Token} {rest : List Token}
    (hs : s.unread = t :: rest) (ht : t.kind = .commentStart) :
    Lays unit s comment fun _ s' => s'.Rests := by
  refine Lays.advance hs (by simp [ht]) fun s₁ _ _ => ?_
  refine Lays.expect (by decide) fun body s₂ _ _ _ => ?_
  refine Lays.expect (by decide) fun close s₃ hclose htook₃ _ => Lays.pure ?_
  exact htook₃.rests (.inr (by rw [hclose]; rfl))

theorem endTag_lays (unit word : String) {s : State} {found : String} (h : s.AtClosing found) :
    Lays unit s (endTag word) fun _ s' => s'.Rests := by
  obtain ⟨t, u, rest, hs, ht, -⟩ := h
  refine Lays.advance hs (by simp [ht]) fun s₁ _ _ => Lays.expectKeyword fun _ s₂ _ => ?_
  refine Lays.expect (by decide) fun close s₃ hclose htook₃ _ => Lays.pure ?_
  exact htook₃.rests (.inr (by rw [hclose]; rfl))

/-! ## Blocks at one amount of fuel -/

/-- The arms of a branch as far as they are read, and the condition of the arm that follows. -/
structure BranchSoFar.Laid (b : BranchSoFar) (unit : String) (lo : Nat) (s : State) : Prop where
  arms : Row unit lo (armTrees b.arms) b.armStart.offset
  condition : Row unit b.armStart.offset (b.condition.toList.map Expr.spanTree) s.reached
  last : b.seenElse → b.condition = none

/-- A further arm starts where its delimiter was read. -/
theorem nextArm_lays {unit : String} {b : BranchSoFar} {lo : Nat} {s : State} {t : Token}
    {rest : List Token} (hs : s.unread = t :: rest) (ht : t.kind = .keyword)
    (harms : Row unit lo (armTrees b.arms) b.armStart.offset)
    (hstart : b.armStart.offset ≤ s.reached) (hlast : b.seenElse → b.condition = none) :
    Lays unit s (nextArm b) fun b' s' => b'.Laid unit lo s' := by
  refine Lays.peek fun t' rest' hs' => ?_
  obtain ⟨rfl, rfl⟩ := List.cons.inj (hs.symm.trans hs')
  split
  · next hseen =>
      refine Lays.bind (Lays.of_moves (recover_moves _ s)) fun _ s' ho _ => Lays.pure ?_
      refine ⟨harms, ?_, hlast⟩
      simp only [hlast hseen]
      exact Nat.le_trans hstart ho.reached
  · next hseen =>
      split
      · refine Lays.advance hs (by simp [ht]) fun s₁ htook _ => ?_
        have hend : Moves .any s₁ expectBlockEnd fun _ _ => True :=
          Moves.of_bind (Moves.expect (by decide) rfl rfl fun _ _ _ _ => Moves.pure trivial)
        refine Lays.bind (Lays.recovering (Lays.of_moves hend)) fun _ s₂ ho _ => Lays.pure ?_
        refine ⟨harms, ?_, fun _ => rfl⟩
        exact Nat.le_trans hstart (Nat.le_trans htook.le_reached ho.reached)
      · have hcondition : LaysTrees unit s condition fun e => [e.spanTree] :=
          condition_lays hs (by simp [ht])
        refine Lays.bind (Lays.recovering hcondition) fun header s' ho ⟨hsome, _⟩ => Lays.pure ?_
        refine ⟨harms, ?_, fun h => absurd h hseen⟩
        cases header with
        | none => exact Nat.le_trans hstart ho.reached
        | some e => exact (hsome e rfl).widen hstart (Nat.le_refl _)

/-- What is kept of the nodes of a block stands where it was read. -/
structure TemplatesLay (setting : Setting) (fuel : Nat) : Prop where
  nodesFrom : ∀ closers nodes lo s, Row setting.unit lo (nodeTrees nodes.reverse) s.reached →
    Lays setting.unit s (nodesFrom setting closers fuel nodes) fun r s' =>
      Row setting.unit lo (nodeTrees r.1) s'.reached ∧
        ((s.complaints = [] → s.Rests) → s'.complaints = [] → s'.Rests)
  tag : ∀ s t rest, s.unread = t :: rest → t.kind ≠ .eof →
    Lays setting.unit s (tag setting fuel) fun o s' =>
      Row setting.unit s.reached (nodeTrees o.toList) s'.reached ∧ s'.Rests
  statement : ∀ opening s, s.Opened opening →
    Lays setting.unit s (statement setting opening fuel) fun o s' =>
      Row setting.unit opening.span.start.offset (nodeTrees o.toList) s'.reached ∧ s'.Rests
  body : ∀ opening construct closers s,
    LaysTrees setting.unit s (body setting opening construct closers fuel) fun r => nodeTrees r.1
  branch : ∀ opening s t rest, s.unread = t :: rest → t.kind = .keyword → s.Opened opening →
    Lays setting.unit s (branch setting opening fuel) fun o s' =>
      Row setting.unit opening.span.start.offset (nodeTrees o.toList) s'.reached ∧ s'.Rests
  armsFrom : ∀ opening b s, s.Opened opening →
    b.Laid setting.unit opening.span.start.offset s →
    Lays setting.unit s (armsFrom setting opening fuel b) fun o s' =>
      Row setting.unit opening.span.start.offset (nodeTrees o.toList) s'.reached ∧ s'.Rests
  loop : ∀ opening s t rest, s.unread = t :: rest → t.kind = .keyword → s.Opened opening →
    Lays setting.unit s (loop setting opening fuel) fun o s' =>
      Row setting.unit opening.span.start.offset (nodeTrees o.toList) s'.reached ∧ s'.Rests
  definition : ∀ opening s t rest, s.unread = t :: rest → t.kind = .keyword → s.Opened opening →
    Lays setting.unit s (definition setting opening fuel) fun o s' =>
      Row setting.unit opening.span.start.offset (nodeTrees o.toList) s'.reached ∧ s'.Rests
  callBlock : ∀ opening s t rest, s.unread = t :: rest → t.kind = .keyword → s.Opened opening →
    Lays setting.unit s (callBlock setting opening fuel) fun o s' =>
      Row setting.unit opening.span.start.offset (nodeTrees o.toList) s'.reached ∧ s'.Rests

theorem templatesLay_zero (setting : Setting) : TemplatesLay setting 0 where
  nodesFrom closers nodes lo s _ := by
    rw [nodesFrom]
    exact Lays.throw
  tag s t rest _ _ := by
    rw [tag]
    exact Lays.throw
  statement opening s _ := by
    rw [statement]
    exact Lays.throw
  body opening construct closers s := by
    rw [body]
    exact Lays.throw
  branch opening s t rest _ _ _ := by
    rw [branch]
    exact Lays.throw
  armsFrom opening b s _ _ := by
    rw [armsFrom]
    exact Lays.throw
  loop opening s t rest _ _ _ := by
    rw [loop]
    exact Lays.throw
  definition opening s t rest _ _ _ := by
    rw [definition]
    exact Lays.throw
  callBlock opening s t rest _ _ _ := by
    rw [callBlock]
    exact Lays.throw

section

variable {setting : Setting} {fuel : Nat} (ih : TemplatesLay setting fuel)

include ih

theorem nodesFrom_lays (closers : List String) {nodes : List Node} {lo : Nat} {s : State}
    (hnodes : Row setting.unit lo (nodeTrees nodes.reverse) s.reached) :
    Lays setting.unit s (nodesFrom setting closers (fuel + 1) nodes) fun r s' =>
      Row setting.unit lo (nodeTrees r.1) s'.reached ∧
        ((s.complaints = [] → s.Rests) → s'.complaints = [] → s'.Rests) := by
  -- what is read next stands behind the nodes before it
  have hkept : ∀ {o : Option Node} {hi : Nat},
      Row setting.unit s.reached (nodeTrees o.toList) hi →
      Row setting.unit lo (nodeTrees (o.toList ++ nodes).reverse) hi := by
    intro o hi ho
    rw [List.reverse_append, Template.nodeTrees_append]
    refine hnodes.append ?_
    cases o <;> exact ho
  rw [nodesFrom]
  refine Lays.peek fun t rest hs => ?_
  split
  · exact Lays.pure ⟨hnodes, id⟩
  · next ht =>
      refine Lays.bind (text_lays setting.unit setting hs ht) fun node s' _ hnode => ?_
      refine (ih.nodesFrom closers _ lo s' (hkept hnode.1)).imp fun r s'' _ hr => ?_
      exact ⟨hr.1, fun _ => hr.2 fun _ => hnode.2⟩
  · next ht =>
      refine Lays.bind (comment_lays setting.unit hs ht) fun _ s' ho hrests => ?_
      have hnodes' := hnodes.widen (Nat.le_refl lo) ho.reached
      refine (ih.nodesFrom closers nodes lo s' hnodes').imp fun r s'' _ hr => ?_
      exact ⟨hr.1, fun _ => hr.2 fun _ => hrests⟩
  · next ht _ _ =>
      refine Lays.bind_of (Lays.of_moves (closingWord?_moves closers hs))
        (closingWord?_stops closers hs) ?_
      rintro o _ - ⟨rfl, -⟩ -
      split
      · exact Lays.pure ⟨hnodes, id⟩
      · refine Lays.bind (Lays.recovering (ih.tag _ t rest hs ht)) fun node s' ho hnode => ?_
        obtain ⟨hsome, hnone⟩ := hnode
        have hrow : Row setting.unit lo (nodeTrees (node.join.toList ++ nodes).reverse)
            s'.reached := by
          cases node with
          | none => exact hnodes.widen (Nat.le_refl lo) ho.reached
          | some n => exact hkept (hsome n rfl).1
        refine (ih.nodesFrom closers _ lo s' hrow).imp fun r s'' _ hr => ?_
        refine ⟨hr.1, fun _ => hr.2 fun hquiet => ?_⟩
        cases node with
        | none => exact absurd hquiet (hnone rfl)
        | some n => exact (hsome n rfl).2

theorem tag_lays {s : State} {t : Token} {rest : List Token} (hs : s.unread = t :: rest)
    (ht : t.kind ≠ .eof) :
    Lays setting.unit s (tag setting (fuel + 1)) fun o s' =>
      Row setting.unit s.reached (nodeTrees o.toList) s'.reached ∧ s'.Rests := by
  rw [tag]
  refine Lays.peek fun t' rest' hs' => ?_
  obtain ⟨rfl, rfl⟩ := List.cons.inj (hs.symm.trans hs')
  split
  · exact Lays.map (output_lays hs ht setting rfl) fun _ _ _ h => h
  · refine Lays.advance hs ht fun s' htook _ => ?_
    refine (ih.statement t s' htook.opened).imp fun o s'' _ hnode => ⟨?_, hnode.2⟩
    exact hnode.1.widen htook.start (Nat.le_refl _)
  · exact Lays.advance hs ht fun s' _ _ => Lays.complain

theorem statement_lays {opening : Token} {s : State} (hopen : s.Opened opening) :
    Lays setting.unit s (statement setting opening (fuel + 1)) fun o s' =>
      Row setting.unit opening.span.start.offset (nodeTrees o.toList) s'.reached ∧ s'.Rests := by
  rw [statement]
  refine Lays.peek fun t rest hs => ?_
  split
  · next ht =>
      have hne : t.kind ≠ .eof := by simp [ht]
      split
      · exact ih.branch opening s t rest hs ht hopen
      · exact ih.loop opening s t rest hs ht hopen
      · exact ih.definition opening s t rest hs ht hopen
      · exact ih.callBlock opening s t rest hs ht hopen
      · exact Lays.map (inclusion_lays hs hne setting rfl hopen) fun _ _ _ h => h
      · exact Lays.map (assignment_lays hs hne setting rfl hopen) fun _ _ _ h => h
      · exact Lays.map (assignment_lays hs hne setting rfl hopen) fun _ _ _ h => h
      · split <;> exact Lays.complain
  · exact Lays.complain
  · exact Lays.complain

theorem body_lays (opening : Token) (construct : String) (closers : List String) (s : State) :
    LaysTrees setting.unit s (body setting opening construct closers (fuel + 1))
      fun r => nodeTrees r.1 := by
  unfold LaysTrees
  rw [body]
  refine Lays.bind (ih.nodesFrom closers [] s.reached s (Nat.le_refl _)) fun r s' _ hr => ?_
  obtain ⟨nodes, word⟩ := r
  cases word with
  | none => exact Lays.complain
  | some word => exact Lays.pure hr.1

theorem branch_lays {opening : Token} {s : State} {t : Token} {rest : List Token}
    (hs : s.unread = t :: rest) (ht : t.kind = .keyword) (hopen : s.Opened opening) :
    Lays setting.unit s (branch setting opening (fuel + 1)) fun o s' =>
      Row setting.unit opening.span.start.offset (nodeTrees o.toList) s'.reached ∧ s'.Rests := by
  rw [branch]
  refine Lays.bind (Lays.recovering (condition_lays hs (by simp [ht]))) fun header s' ho h => ?_
  refine ih.armsFrom opening _ s' (hopen.after ho) ⟨Nat.le_refl _, ?_, by rintro ⟨⟩⟩
  cases header with
  | none => exact (hopen.after ho).start_le
  | some e => exact (h.1 e rfl).widen hopen.start_le (Nat.le_refl _)

theorem armsFrom_lays {opening : Token} {b : BranchSoFar} {s : State} (hopen : s.Opened opening)
    (hb : b.Laid setting.unit opening.span.start.offset s) :
    Lays setting.unit s (armsFrom setting opening (fuel + 1) b) fun o s' =>
      Row setting.unit opening.span.start.offset (nodeTrees o.toList) s'.reached ∧ s'.Rests := by
  rw [armsFrom]
  refine Lays.bind_of (ih.body opening "if" _ s) (body_stops setting opening "if" _ fuel s) ?_
  rintro r s₁ ho hbody ⟨-, hclosing⟩
  have hopen₁ := hopen.after ho
  refine Lays.spanFrom hopen₁.previous fun armSpan hstart hstop hunit => ?_
  -- the arm follows those before it
  have harms : Row setting.unit opening.span.start.offset
      (armTrees (b.arms ++ [⟨b.condition, r.1, armSpan⟩])) s₁.reached := by
    rw [Template.armTrees_append]
    refine hb.arms.append ⟨Nat.le_of_eq (by rw [SpanTree.span_node, hstart]), .of_row hunit ?_,
      Nat.le_of_eq hstop⟩
    rw [hstart, hstop]
    exact hb.condition.append hbody
  split
  · refine Lays.bind (endTag_lays setting.unit "endif" hclosing) fun _ s₂ ho₂ hrests => ?_
    split
    · exact Lays.pure ⟨(hopen₁.after ho₂).start_le, hrests⟩
    · refine Lays.spanFrom (hopen₁.after ho₂).previous fun span hstart hstop hunit => Lays.pure ?_
      refine ⟨⟨Nat.le_of_eq (by rw [Node.spanTree, SpanTree.span_node, hstart]), .of_row hunit ?_,
        Nat.le_of_eq hstop⟩, hrests⟩
      rw [hstart, hstop]
      exact harms.widen (Nat.le_refl _) ho₂.reached
  · obtain ⟨t, u, rest, hs, ht, hu, -⟩ := hclosing
    refine Lays.advance hs (by simp [ht]) fun s₂ htook _ => ?_
    have hs₂ : s₂.unread = u :: rest := (List.cons.inj (htook.unread.symm.trans hs)).2
    have hnext := nextArm_lays (b := { b with
      arms := b.arms ++ [⟨b.condition, r.1, armSpan⟩], armStart := t.span.start }) hs₂ hu
      (harms.widen (Nat.le_refl _) htook.start) htook.start_le_reached hb.last
    refine Lays.bind hnext fun b' s₃ ho₃ hb' => ?_
    have hopen₂ := hopen₁.start_le
    refine ih.armsFrom opening b' s₃ (State.Opened.after ⟨?_, htook.previous_ne⟩ ho₃) hb'
    exact Nat.le_trans hopen₂ htook.le_reached

omit ih in
/-- The end of a loop, behind its header and its bodies. -/
theorem loopEnd_lays {opening : Token} {header : Option (List String × Expr)}
    {nodes otherwise : List Node} {s₀ s : State} {word : String} (hclosing : s.AtClosing word)
    (hopen₀ : s₀.Opened opening) (hopen : s.Opened opening)
    (hrow : ∀ r, header = some r → Row setting.unit s₀.reached
      (r.2.spanTree :: (nodeTrees nodes ++ nodeTrees otherwise)) s.reached) :
    Lays setting.unit s (loopEnd setting opening header nodes otherwise) fun o s' =>
      Row setting.unit opening.span.start.offset (nodeTrees o.toList) s'.reached ∧ s'.Rests := by
  refine Lays.bind (endTag_lays setting.unit "endfor" hclosing) fun _ s' ho hrests => ?_
  have hopen' := hopen.after ho
  split
  · exact Lays.pure ⟨hopen'.start_le, hrests⟩
  · next targets iterable =>
      refine Lays.spanFrom hopen'.previous fun span hstart hstop hunit => Lays.pure ?_
      have hwide := (hrow _ rfl).widen (Nat.le_refl _) ho.reached
      exact ⟨row_opened hopen₀ hwide hstart hstop hunit, hrests⟩

theorem loop_lays {opening : Token} {s : State} {t : Token} {rest : List Token}
    (hs : s.unread = t :: rest) (ht : t.kind = .keyword) (hopen : s.Opened opening) :
    Lays setting.unit s (loop setting opening (fuel + 1)) fun o s' =>
      Row setting.unit opening.span.start.offset (nodeTrees o.toList) s'.reached ∧ s'.Rests := by
  rw [loop_succ]
  refine Lays.bind (Lays.recovering (loopHeader_lays hs (by simp [ht]))) fun header s₁ ho₁ h => ?_
  refine Lays.bind_of (ih.body opening "for" _ s₁) (body_stops setting opening "for" _ fuel s₁) ?_
  rintro r s₂ ho₂ hbody ⟨-, hclosing⟩
  have hopen₂ := (hopen.after ho₁).after ho₂
  dsimp only
  split
  · refine Lays.bind (endTag_lays setting.unit "else" hclosing) fun _ s₃ ho₃ _ => ?_
    refine Lays.bind_of (ih.body opening "for" _ s₃) (body_stops setting opening "for" _ fuel s₃) ?_
    rintro r' s₄ ho₄ hbody' ⟨-, hclosing'⟩
    rw [pure_bind]
    refine loopEnd_lays hclosing' hopen ((hopen₂.after ho₃).after ho₄) fun _ hheader => ?_
    have hbodies := hbody.append (hbody'.widen ho₃.reached (Nat.le_refl _))
    exact (h.1 _ hheader).append hbodies
  · rw [pure_bind]
    refine loopEnd_lays hclosing hopen hopen₂ fun _ hheader => ?_
    rw [Template.nodeTrees, List.append_nil]
    exact (h.1 _ hheader).append hbody

theorem definition_lays {opening : Token} {s : State} {t : Token} {rest : List Token}
    (hs : s.unread = t :: rest) (ht : t.kind = .keyword) (hopen : s.Opened opening) :
    Lays setting.unit s (definition setting opening (fuel + 1)) fun o s' =>
      Row setting.unit opening.span.start.offset (nodeTrees o.toList) s'.reached ∧ s'.Rests := by
  rw [definition]
  refine Lays.bind (Lays.recovering (definitionHeader_lays hs (by simp [ht]) setting rfl)) ?_
  intro header s₁ ho₁ h
  refine Lays.bind_of (ih.body opening "macro" _ s₁)
    (body_stops setting opening "macro" _ fuel s₁) ?_
  rintro r s₂ ho₂ hbody ⟨-, hclosing⟩
  refine Lays.bind (endTag_lays setting.unit "endmacro" hclosing) fun _ s₃ ho₃ hrests => ?_
  have hopen₃ := ((hopen.after ho₁).after ho₂).after ho₃
  split
  · exact Lays.pure ⟨hopen₃.start_le, hrests⟩
  · next name params =>
      refine Lays.spanFrom hopen₃.previous fun span hstart hstop hunit => Lays.pure ?_
      have hparts := (h.1 _ rfl).append (hbody.widen (Nat.le_refl _) ho₃.reached)
      exact ⟨row_opened hopen hparts hstart hstop hunit, hrests⟩

theorem callBlock_lays {opening : Token} {s : State} {t : Token} {rest : List Token}
    (hs : s.unread = t :: rest) (ht : t.kind = .keyword) (hopen : s.Opened opening) :
    Lays setting.unit s (callBlock setting opening (fuel + 1)) fun o s' =>
      Row setting.unit opening.span.start.offset (nodeTrees o.toList) s'.reached ∧ s'.Rests := by
  rw [callBlock]
  refine Lays.bind (Lays.recovering (callHeader_lays hs (by simp [ht]))) fun header s₁ ho₁ h => ?_
  refine Lays.bind_of (ih.body opening "call" _ s₁) (body_stops setting opening "call" _ fuel s₁) ?_
  rintro r s₂ ho₂ hbody ⟨-, hclosing⟩
  refine Lays.bind (endTag_lays setting.unit "endcall" hclosing) fun _ s₃ ho₃ hrests => ?_
  have hopen₃ := ((hopen.after ho₁).after ho₂).after ho₃
  split
  · exact Lays.pure ⟨hopen₃.start_le, hrests⟩
  · next call =>
      refine Lays.spanFrom hopen₃.previous fun span hstart hstop hunit => Lays.pure ?_
      have hparts := (h.1 _ rfl).append (hbody.widen (Nat.le_refl _) ho₃.reached)
      exact ⟨row_opened hopen hparts hstart hstop hunit, hrests⟩

end

/-! ## Every amount of fuel -/

theorem templatesLay (setting : Setting) : ∀ fuel, TemplatesLay setting fuel
  | 0 => templatesLay_zero setting
  | fuel + 1 =>
      have ih := templatesLay setting fuel
      { nodesFrom := fun closers _ _ _ hnodes => nodesFrom_lays ih closers hnodes
        tag := fun _ _ _ hs ht => tag_lays ih hs ht
        statement := fun _ _ hopen => statement_lays ih hopen
        body := body_lays ih
        branch := fun _ _ _ _ hs ht hopen => branch_lays ih hs ht hopen
        armsFrom := fun _ _ _ hopen hb => armsFrom_lays ih hopen hb
        loop := fun _ _ _ _ hs ht hopen => loop_lays ih hs ht hopen
        definition := fun _ _ _ _ hs ht hopen => definition_lays ih hs ht hopen
        callBlock := fun _ _ _ _ hs ht hopen => callBlock_lays ih hs ht hopen }

/-! ## Whole templates -/

theorem State.reached_le_lastEnd? {s : State} {stop : Position} (h : s.lastEnd? = some stop) :
    s.reached ≤ stop.offset := by
  unfold State.lastEnd? at h
  unfold State.reached
  cases hprevious : s.previous with
  | none => exact Nat.zero_le _
  | some t =>
      rw [hprevious] at h
      obtain rfl := Option.some.inj h
      exact Nat.le_refl _

theorem spanFrom_lays (unit : String) (s : State) :
    Ends (spanFrom unit .initial) s (fun span s' => s' = s ∧
      ∃ stop, span = ⟨.initial, stop, unit⟩ ∧ s.lastEnd? = some stop) fun _ _ => True := by
  unfold Ends
  cases hstop : s.lastEnd? with
  | none =>
      rw [spanFrom_eq_error hstop]
      trivial
  | some stop =>
      rw [spanFrom_eq hstop, between_initial]
      exact ⟨rfl, stop, rfl, rfl⟩

/-- All tokens up to an end were taken, the last of them a text or the end of a tag. -/
structure State.TookAll (s : State) (stop : Position) : Prop where
  exists_end : ∃ us t rest, s.unread = us ++ t :: rest ∧ t.kind = .eof ∧
    (∀ u ∈ us.getLast?, u.kind = .text ∨ u.kind.isCloser) ∧
      stop = (us.getLast?.map (·.span.stop)).getD t.span.start

theorem template_lays {setting : Setting} {s : State} (hs : s.InUnit setting.unit)
    (hnone : s.previous = none) :
    Ends (template setting) s (fun t s' => t.spanTree.Nested setting.unit ∧
      t.span.start = .initial ∧ (s'.complaints = [] → s.TookAll t.span.stop)) fun _ _ => True := by
  have hnodes := (templatesLay setting (templateFuel s.unread.length)).nodesFrom [] [] 0 s
    (Nat.zero_le _) hs
  have hrests : s.Rests := by
    intro t ht
    cases hnone.symm.trans ht
  have hbody : Ends (templateBody setting) s (fun nodes s' =>
      Row setting.unit 0 (nodeTrees nodes) s'.reached ∧
        (s'.complaints = [] → ∃ us t rest, s.unread = us ++ t :: rest ∧ s'.unread = t :: rest ∧
          t.kind = .eof ∧ s'.previous = us.getLast? ∧ s'.Rests)) fun _ _ => True := by
    refine templateBody_ends_of (hnodes.imp ?_ ?_)
    · rintro r s' ⟨honward, hrow, hquiet⟩ ⟨t, rest, hs', heof⟩
      refine ⟨hrow, fun hcomplaints => ?_⟩
      obtain ⟨us, hus, -⟩ := honward.ahead
      refine ⟨us, t, rest, by rw [hus, hs'], hs', heof, ?_, hquiet (fun _ => hrests) hcomplaints⟩
      rw [honward.previous us hus, hnone, Option.or_none]
    · exact fun _ _ _ _ _ => ⟨Nat.zero_le _, fun hcomplaints => absurd hcomplaints (by simp)⟩
  refine Ends.bind hbody ?_
  rintro nodes s' ⟨hrow, hquiet⟩
  refine Ends.bind (spanFrom_lays setting.unit s') ?_
  rintro _ s'' ⟨rfl, stop, rfl, hstop⟩
  refine Ends.pure ⟨.of_row rfl ?_, rfl, fun hcomplaints => ?_⟩
  · exact hrow.widen (Nat.le_refl _) (State.reached_le_lastEnd? hstop)
  · obtain ⟨us, t, rest, hus, hs', heof, hprevious, hrests'⟩ := hquiet hcomplaints
    refine ⟨us, t, rest, hus, heof, fun u hu => hrests' u (hprevious.trans hu), ?_⟩
    rw [State.lastEnd?, hprevious, hs', List.head?_cons, Option.map_some, Option.or_some] at hstop
    exact (Option.some.inj hstop).symm

end TemplateCompiler.Parser
