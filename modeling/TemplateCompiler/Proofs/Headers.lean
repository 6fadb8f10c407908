import TemplateCompiler.Proofs.ExpressionTotal
import TemplateCompiler.Template.Parser.Statement

/-!
# Tags end

What stands in a tag is read up to the delimiter that closes it, or up to something that is wrong in
it. In the second case the parser has not taken any delimiter, so skipping the rest of the tag leads
behind the same delimiter: whatever is wrong in a tag, reading goes on directly behind it.
-/

namespace TemplateCompiler.Parser

open Template (Expr Node)

variable {α β : Type}

/-! ## Runs up to the end of a tag -/

/-- From `s` the rest of a tag was read, and `s'` is the state behind it. -/
structure State.ClosedBy (s s' : State) : Prop where
  onward : Scope.any.Onward s s'
  ahead : ∃ us close, s.unread = us ++ close :: s'.unread ∧ (∀ t ∈ us, t.kind.isInner) ∧
    close.kind.isCloser
  complaints : ∃ cs, s'.complaints = s.complaints ++ cs ∧ ∀ c ∈ cs, c.problem.isInTag

theorem State.ClosedBy.after {s s' s'' : State} (h : s'.ClosedBy s'')
    (ho : Scope.tag.Onward s s') : s.ClosedBy s'' := by
  obtain ⟨us, hus, hinner⟩ := ho.ahead
  obtain ⟨vs, close, hvs, hinner', hclose⟩ := h.ahead
  obtain ⟨cs, hcs, hlocal⟩ := ho.complaints
  obtain ⟨ds, hds, hlocal'⟩ := h.complaints
  refine ⟨ho.any.trans h.onward, ⟨us ++ vs, close, ?_, ?_, hclose⟩, ⟨cs ++ ds, ?_, ?_⟩⟩
  · rw [hus, hvs, List.append_assoc]
  · exact List.forall_mem_append.mpr ⟨hinner, hinner'⟩
  · rw [hds, hcs, List.append_assoc]
  · exact List.forall_mem_append.mpr ⟨hlocal, hlocal'⟩

/-- From `s` on, `p` reads the rest of a tag, or stops at something that is wrong in it. -/
def Closes (s : State) (p : Parser α) (Q : α → State → Prop) : Prop :=
  s.Ordered → Ends p s (fun a s' => s.ClosedBy s' ∧ Q a s')
    fun e s' => Scope.tag.Onward s s' ∧ Scope.tag.Stops s e

/-- `p` succeeds and leaves the state as it is. -/
def Stays (s : State) (p : Parser α) (Q : α → State → Prop) : Prop :=
  Ends p s (fun a s' => s' = s ∧ Q a s) fun _ _ => False

theorem Stays.pure {s : State} {a : α} {Q : α → State → Prop} (h : Q a s) :
    Stays s (Pure.pure a) Q :=
  ⟨rfl, h⟩

theorem Stays.spanFrom {s : State} {t : Token} {unit : String} {start : Position}
    {f : Span → Parser β} {Q : β → State → Prop} (ht : s.previous = some t)
    (hle : start.offset ≤ t.span.stop.offset) (h : ∀ span, Stays s (f span) Q) :
    Stays s (spanFrom unit start >>= f) Q := by
  have hspan : Parser.spanFrom unit start s = .ok ⟨start, t.span.stop, unit⟩ s := by
    have hbetween : Span.between start t.span.stop unit = .ok ⟨start, t.span.stop, unit⟩ :=
      if_neg (Nat.not_lt.mpr hle)
    rw [spanFrom_eq (State.lastEnd?_of_previous ht), hbetween]
    rfl
  refine Ends.bind (P := fun _ s' => s' = s) ?_ ?_
  · unfold Ends
    rw [hspan]
  · rintro span _ rfl
    exact h span

namespace Closes

variable {s : State} {p : Parser α} {f : α → Parser β} {P : α → State → Prop}
  {Q : β → State → Prop}

theorem moves (h : Closes s p P) : Moves .any s p P :=
  fun hs => (h hs).imp (fun _ _ ⟨hc, ha⟩ => ⟨hc.onward, ha⟩) fun _ _ ⟨ho, he⟩ => ⟨ho.any, he.any⟩

theorem bind (hp : Moves .tag s p P)
    (hf : ∀ a s', Scope.tag.Onward s s' → P a s' → Closes s' (f a) Q) : Closes s (p >>= f) Q :=
  fun hs => Ends.bind (hp hs) fun a s' ⟨ho, ha⟩ =>
    (hf a s' ho ha ho.ordered).imp (fun _ _ ⟨hc, hb⟩ => ⟨hc.after ho, hb⟩)
      fun _ _ ⟨ho', he⟩ => ⟨ho.trans ho', he.before ho⟩

section

variable {f : Token → Parser β}

theorem advance {t : Token} {rest : List Token} (hs : s.unread = t :: rest) (ht : t.kind.isInner)
    (h : ∀ s', s.Took t s' → Closes s' (f t) Q) : Closes s (advance >>= f) Q := by
  have hne : t.kind ≠ .eof := by
    intro heof
    rw [heof] at ht
    cases ht
  refine bind (P := fun u s' => u = t ∧ s.Took t s') ?_ ?_
  · exact Moves.of_bind (Moves.advance hs hne ht fun s' htook => Moves.pure ⟨rfl, htook⟩)
  · rintro _ s' - ⟨rfl, htook⟩
    exact h s' htook

theorem expect {kind : TokenKind} {problem : SyntaxProblem} (hkind : kind.isInner)
    (hproblem : problem.isInTag) (h : ∀ t s', s.Took t s' → Closes s' (f t) Q) :
    Closes s (Parser.expect kind problem >>= f) Q := by
  have hne : kind ≠ .eof := by
    rintro rfl
    cases hkind
  refine bind (P := fun t s' => s.Took t s') ?_ fun t s' _ htook => h t s' htook
  exact Moves.of_bind (Moves.expect hne hkind hproblem fun t s' _ htook => Moves.pure htook)

theorem expectKeyword {word : String} (h : ∀ t s', s.Took t s' → Closes s' (f t) Q) :
    Closes s (expectKeyword word >>= f) Q := by
  refine bind (P := fun t s' => s.Took t s') ?_ fun t s' _ htook => h t s' htook
  exact Moves.of_bind (Moves.expectKeyword rfl rfl fun t s' _ htook => Moves.pure htook)

end

theorem get {f : State → Parser β} (h : Closes s (f s) Q) :
    Closes s (MonadState.get >>= f) Q :=
  bind (P := fun a s' => a = s ∧ s' = s) (Moves.of_bind (Moves.get (Moves.pure ⟨rfl, rfl⟩)))
    fun _ _ _ ⟨ha, hs⟩ => ha ▸ hs ▸ h

theorem join {a b : Span} {f : Span → Parser β} (hle : a.start.offset ≤ b.stop.offset)
    (h : ∀ span : Span, span.start = a.start → span.stop = b.stop → Closes s (f span) Q) :
    Closes s (join a b >>= f) Q := by
  refine bind (P := fun span s' => span.start = a.start ∧ span.stop = b.stop ∧ s' = s) ?_ ?_
  · exact Moves.of_bind (Moves.join hle fun span hstart hstop => Moves.pure ⟨hstart, hstop, rfl⟩)
  · rintro span _ - ⟨hstart, hstop, rfl⟩
    exact h span hstart hstop

/-- The delimiter that closes the tag. Nothing that follows it can fail. -/
theorem close {kind : TokenKind} {problem : SyntaxProblem} {f : Token → Parser β}
    (hkind : kind.isCloser) (hproblem : problem.isInTag)
    (h : ∀ t s', t.kind = kind → s.Took t s' → Stays s' (f t) Q) :
    Closes s (Parser.expect kind problem >>= f) Q := by
  intro hs
  have hne : kind ≠ .eof := by
    rintro rfl
    cases hkind
  refine Ends.bind (P := fun t s' => t.kind = kind ∧ s.Took t s' ∧ s'.Ordered ∧
    s'.fault = s.fault ∧ s'.complaints = s.complaints) ?_ ?_
  · refine Ends.bind (P := fun t s' => s' = s ∧ ∃ rest, s.unread = t :: rest) ?_ ?_
    · unfold Ends peek
      cases hunread : s.unread with
      | nil => exact ⟨.refl hs, Moves.beyond_stops hs (by simp [hunread])⟩
      | cons t rest => exact ⟨rfl, rest, rfl⟩
    · rintro t _ ⟨rfl, rest, hunread⟩
      split
      · next ht =>
          have heof : t.kind ≠ .eof := ht ▸ hne
          obtain ⟨hordered, htook⟩ := hs.consume hunread heof
          unfold Ends
          rw [advance_eq hunread heof]
          exact ⟨ht, htook, hordered, rfl, rfl⟩
      · exact Ends.throw ⟨.refl hs, hproblem⟩
  · rintro t s' ⟨ht, htook, hordered, hfault, hcomplaints⟩
    refine (h t s' ht htook).imp ?_ fun _ _ => False.elim
    rintro b _ ⟨rfl, hb⟩
    refine ⟨⟨htook.onward hordered rfl hfault hcomplaints,
      ⟨[], t, htook.unread, List.forall_mem_nil _, ?_⟩,
      ⟨[], by rw [hcomplaints, List.append_nil], List.forall_mem_nil _⟩⟩, hb⟩
    rw [ht]
    exact hkind

theorem blockEnd {b : β} (h : ∀ s', Q b s') : Closes s (do let _ ← expectBlockEnd; return b) Q :=
  close rfl rfl fun _ s' _ _ => Stays.pure (h s')

end Closes

/-! ## Headers -/

section

variable {s : State} {t : Token} {rest : List Token} (hs : s.unread = t :: rest)
  (ht : t.kind.isInner)

include hs ht

theorem condition_closes : Closes s condition fun _ _ => True :=
  Closes.advance hs ht fun s' _ => Closes.bind (expression_moves s') fun _ _ _ _ =>
    Closes.blockEnd fun _ => trivial

omit hs ht in
theorem targetsFrom_moves : ∀ (fuel : Nat) (targets : List String) (s : State),
    s.unread.length < fuel → Moves .tag s (targetsFrom fuel targets) fun _ _ => True
  | 0, _, _, h => absurd h (Nat.not_lt_zero _)
  | fuel + 1, targets, s, h => by
      refine Moves.peek fun t rest hs => ?_
      split
      · next ht =>
          refine Moves.advance hs (by simp [ht]) (by rw [ht]; rfl) fun s' htook => ?_
          refine Moves.expect (by decide) rfl rfl fun name s'' _ htook' => ?_
          have hlt := htook.length_lt
          have hlt' := htook'.length_lt
          exact targetsFrom_moves fuel _ s'' (by omega)
      · exact Moves.pure trivial

theorem loopHeader_closes : Closes s loopHeader fun _ _ => True := by
  refine Closes.advance hs ht fun s₁ _ => Closes.expect rfl rfl fun first s₂ _ => ?_
  refine Closes.get (Closes.bind (targetsFrom_moves _ _ s₂ (Nat.lt_succ_self _)) ?_)
  refine fun targets s₃ _ _ => Closes.expectKeyword fun _ s₄ _ => ?_
  exact Closes.bind (expression_moves s₄) fun _ _ _ _ => Closes.blockEnd fun _ => trivial

omit hs ht in
theorem parameterDefault_moves (s : State) : Moves .tag s parameterDefault fun _ _ => True := by
  refine Moves.peek fun t rest hs => ?_
  split
  · next ht =>
      refine Moves.advance hs (by simp [ht]) (by rw [ht]; rfl) fun s' _ => ?_
      refine Moves.peek fun next _ _ => ?_
      split
      · exact Moves.bind (expression_moves s') fun _ _ _ _ => Moves.pure trivial
      · exact Moves.complain rfl
  · exact Moves.pure trivial

omit hs ht in
theorem parametersBehind_moves {unit name : String} {fuel : Nat}
    (ih : ∀ ps s, s.unread.length < fuel →
      Moves .tag s (parametersFrom unit name fuel ps) fun _ _ => True)
    (ps : List (Parameter Expr)) {s : State} (h : s.unread.length ≤ fuel) :
    Moves .tag s (parametersBehind unit name fuel ps) fun _ _ => True := by
  refine Moves.peek fun sep rest hs => ?_
  split
  · next hsep =>
      refine Moves.advance hs (by simp [hsep]) (by rw [hsep]; rfl) fun s' htook => ?_
      have hlt := htook.length_lt
      exact ih ps s' (by omega)
  · next hsep =>
      exact Moves.advance hs (by simp [hsep]) (by rw [hsep]; rfl) fun _ _ => Moves.pure trivial
  · exact Moves.complain rfl

omit hs ht in
theorem parametersFrom_moves (unit name : String) (fuel : Nat) (ps : List (Parameter Expr))
    (s : State) (h : s.unread.length < fuel) :
    Moves .tag s (parametersFrom unit name fuel ps) fun _ _ => True := by
  induction fuel generalizing ps s with
  | zero => omega
  | succ fuel ih =>
      rw [parametersFrom_succ]
      refine Moves.peek fun t rest hs => ?_
      split
      · next ht =>
          exact Moves.advance hs (by simp [ht]) (by rw [ht]; rfl) fun _ _ => Moves.pure trivial
      · next ht =>
          refine Moves.advance hs (by simp [ht]) (by rw [ht]; rfl) fun s₁ htook => ?_
          have hlt := htook.length_lt
          refine Moves.bind (parameterDefault_moves s₁) fun default s₂ ho _ => ?_
          have hlength := ho.length_le
          split
          · refine Moves.note rfl fun s₃ _ hunread _ => ?_
            rw [pure_bind]
            exact parametersBehind_moves ih ps (by rw [hunread]; omega)
          · have hle := Nat.le_trans htook.start_le_reached ho.reached
            refine Moves.spanFrom hle fun span => ?_
            rw [pure_bind]
            exact parametersBehind_moves ih _ (by omega)
      · exact Moves.complain rfl

theorem definitionHeader_closes (setting : Setting) :
    Closes s (definitionHeader setting) fun _ _ => True := by
  refine Closes.advance hs ht fun s₁ _ => Closes.expect rfl rfl fun name s₂ _ => ?_
  refine Closes.expect rfl rfl fun opening s₃ _ => Closes.get ?_
  refine Closes.bind (parametersFrom_moves _ _ _ [] s₃ (Nat.lt_succ_self _)) ?_
  exact fun _ _ _ _ => Closes.blockEnd fun _ => trivial

theorem callHeader_closes : Closes s callHeader fun _ _ => True := by
  refine Closes.advance hs ht fun s₁ _ => Closes.expect rfl rfl fun name s₂ hname => ?_
  refine Closes.expect rfl rfl fun opening s₃ hopen => ?_
  refine Closes.bind (arguments_moves s₃) fun args s₄ ho ⟨hstart, hforward, hreached⟩ => ?_
  have hnamed := hname.forward
  have hnamed' := hname.reached
  have hopened := hopen.forward
  have hopened' := hopen.start
  have hle := hopen.reached
  refine Closes.join (by omega) fun argsSpan _ _ => Closes.join (by omega) fun span _ _ => ?_
  exact Closes.blockEnd fun _ => trivial

theorem inclusion_closes (setting : Setting) {opening : Token}
    (hopen : opening.span.start.offset ≤ s.reached) :
    Closes s (inclusion setting opening) fun _ _ => True := by
  refine Closes.advance hs ht fun s₁ htook => Closes.expect rfl rfl fun path s₂ htook₂ => ?_
  refine Closes.close rfl rfl fun close s₃ _ htook₃ => ?_
  refine Stays.spanFrom htook₃.previous ?_ fun span => Stays.pure trivial
  have hle := htook.le_reached
  have hle₂ := htook₂.le_reached
  have hle₃ := htook₃.le_reached
  rw [← htook₃.reached]
  omega

theorem assignment_closes (setting : Setting) {opening : Token}
    (hopen : opening.span.start.offset ≤ s.reached) :
    Closes s (assignment setting opening) fun _ _ => True := by
  refine Closes.advance hs ht fun s₁ htook => Closes.expect rfl rfl fun name s₂ htook₂ => ?_
  refine Closes.expect rfl rfl fun equals s₃ htook₃ => ?_
  refine Closes.bind (expression_moves s₃) fun e s₄ ho _ => ?_
  refine Closes.close rfl rfl fun close s₅ _ htook₅ => ?_
  refine Stays.spanFrom htook₅.previous ?_ fun span => Stays.pure trivial
  have hle := htook.le_reached
  have hle₂ := htook₂.le_reached
  have hle₃ := htook₃.le_reached
  have hle₄ := ho.reached
  have hle₅ := htook₅.le_reached
  rw [← htook₅.reached]
  omega

omit hs ht in
/-- What stands behind the delimiter that opens an output. -/
theorem output_closes (setting : Setting) {opening : Token} (s : State)
    (hopen : opening.span.start.offset ≤ s.reached) :
    Closes s (do
      let e ← expression
      let _ ← Parser.expect .exprEnd .expectedExprEnd
      return (.output e (← spanFrom setting.unit opening.span.start) : Node)) fun _ _ => True := by
  refine Closes.bind (expression_moves s) fun e s' ho _ => ?_
  refine Closes.close rfl rfl fun close s'' _ htook => ?_
  refine Stays.spanFrom htook.previous ?_ fun span => Stays.pure trivial
  have hle := ho.reached
  have hle' := htook.le_reached
  rw [← htook.reached]
  omega

omit hs ht in
/-- What stands behind the delimiter that opens an end tag. -/
theorem endTag_closes (word : String) (s : State) :
    Closes s (do
      let _ ← expectKeyword word
      let _ ← expectBlockEnd) fun _ _ => True :=
  Closes.expectKeyword fun _ _ _ => Closes.close rfl rfl fun _ _ _ _ => Stays.pure trivial

end

/-! ## Recovery -/

theorem skipTag_moves (s : State) : Moves .any s skipTag fun _ _ => True := by
  suffices h : ∀ (ahead : List Token) (s : State), s.unread = ahead →
      Moves .any s (skipTagFrom ahead) fun _ _ => True from h s.unread s rfl
  intro ahead
  induction ahead with
  | nil =>
      intro s hs ho
      exact ⟨.refl ho, Moves.beyond_stops ho (by simp [hs])⟩
  | cons t rest ih =>
      intro s hs ho
      unfold Ends skipTagFrom
      by_cases heof : t.kind = .eof
      · simp only [if_pos heof]
        exact ⟨.refl ho, trivial⟩
      · obtain ⟨hordered, htook⟩ := ho.consume hs heof
        have honward : Scope.any.Onward s (s.consume t rest) := htook.onward hordered rfl rfl rfl
        by_cases hclose : t.kind.isCloser
        · simp only [if_neg heof, if_pos hclose]
          exact ⟨honward, trivial⟩
        · simp only [if_neg heof, if_neg hclose]
          exact Moves.after honward (ih (s.consume t rest) rfl)

/-- A complaint that is recovered from is left behind. -/
theorem recover_moves (c : Complaint) (s : State) :
    Moves .any s (recover c) fun _ s' => s'.complaints ≠ [] := by
  refine Moves.note rfl fun s' hnoted _ _ => (skipTag_moves s').imp fun _ s'' ho _ => ?_
  obtain ⟨cs, hcs, -⟩ := ho.complaints
  rw [hcs, hnoted]
  simp

/-- Either `p` succeeds or a complaint is left behind. -/
theorem recovering_moves {s : State} {p : Parser α} {P : α → State → Prop}
    (hp : Moves .any s p P) :
    Moves .any s (recovering p) fun o s' =>
      (∃ a, o = some a ∧ P a s') ∨ o = none ∧ s'.complaints ≠ [] := by
  intro ho
  refine Ends.tryCatch (F := fun e s' => Scope.any.Onward s s' ∧ Scope.any.Stops s e)
    (Ends.map (hp ho) fun a s' ⟨honward, ha⟩ => ⟨honward, .inl ⟨a, rfl, ha⟩⟩) ?_
  rintro e s' ⟨honward, he⟩
  cases e with
  | complaint c =>
      refine Moves.after honward ?_
      exact Moves.bind (recover_moves c s') fun _ _ _ h => Moves.pure (.inr ⟨rfl, h⟩)
  | _ => exact Ends.throw ⟨honward, he⟩

theorem isInner_of_isCloser {kind : TokenKind} (h : kind.isCloser) : kind.isInner = false := by
  cases kind <;> first | rfl | cases h

/-- What stands inside a tag is skipped. -/
theorem skipTag_inner {us tail : List Token} {s : State} {Q : Unit → State → Prop}
    {E : Stop → State → Prop} (hs : s.unread = us ++ tail) (hinner : ∀ t ∈ us, t.kind.isInner)
    (h : ∀ s', s'.unread = tail → s'.complaints = s.complaints → Ends skipTag s' Q E) :
    Ends skipTag s Q E := by
  induction us generalizing s with
  | nil => exact h s hs rfl
  | cons t us ih =>
      obtain ⟨ht, hus⟩ := List.forall_mem_cons.mp hinner
      have hne : t.kind ≠ .eof := by
        intro heof
        rw [heof] at ht
        cases ht
      have hopen : ¬ t.kind.isCloser := by
        intro hcloser
        rw [isInner_of_isCloser hcloser] at ht
        cases ht
      have hrest := ih (s := s.consume t (us ++ tail)) rfl hus h
      have hskip : skipTag s = skipTag (s.consume t (us ++ tail)) := by
        unfold skipTag
        rw [hs, List.cons_append, skipTagFrom, if_neg hne, if_neg hopen]
        rfl
      unfold Ends at hrest ⊢
      rwa [hskip]

/-- Skipping the rest of a tag leads behind the delimiter that closes it. -/
theorem skipTag_closes {us rest : List Token} {close : Token} {s : State}
    (hs : s.unread = us ++ close :: rest) (hinner : ∀ t ∈ us, t.kind.isInner)
    (hclose : close.kind.isCloser) :
    Ends skipTag s (fun _ s' => s'.unread = rest ∧ s'.complaints = s.complaints)
      fun _ _ => False := by
  have hne : close.kind ≠ .eof := by
    intro heof
    rw [heof] at hclose
    cases hclose
  refine skipTag_inner hs hinner fun s' hs' hcomplaints => ?_
  unfold Ends skipTag
  simp only [hs', skipTagFrom, if_neg hne, if_pos hclose]
  exact ⟨rfl, hcomplaints⟩

/-- Where no delimiter closes the tag, all is skipped but the end. -/
theorem skipTag_unclosed {us rest : List Token} {s : State} (hs : s.unread = us ++ rest)
    (hinner : ∀ t ∈ us, t.kind.isInner) (hend : ∀ t ∈ rest.head?, t.kind = .eof) :
    Ends skipTag s (fun _ s' => s'.unread = rest ∧ s'.complaints = s.complaints)
      fun _ s' => s'.unread = rest ∧ s'.complaints = s.complaints := by
  refine skipTag_inner hs hinner fun s' hs' hcomplaints => ?_
  unfold Ends skipTag
  cases rest with
  | nil =>
      simp only [hs', skipTagFrom]
      exact ⟨trivial, hcomplaints⟩
  | cons t rest =>
      have ht : t.kind = .eof := hend t rfl
      simp only [hs', skipTagFrom, if_pos ht]
      exact ⟨trivial, hcomplaints⟩

/-- Two ways to cut tokens at the first one that is not inside a tag are one. -/
theorem cut_unique {us vs rest rest' : List Token} {c d : Token}
    (h : us ++ c :: rest = vs ++ d :: rest') (hus : ∀ t ∈ us, t.kind.isInner)
    (hvs : ∀ t ∈ vs, t.kind.isInner) (hc : ¬ c.kind.isInner) (hd : ¬ d.kind.isInner) :
    us = vs ∧ c = d ∧ rest = rest' := by
  induction us generalizing vs with
  | nil =>
      cases vs with
      | nil =>
          obtain ⟨rfl, rfl⟩ := List.cons.inj h
          exact ⟨rfl, rfl, rfl⟩
      | cons v vs =>
          obtain ⟨rfl, -⟩ := List.cons.inj h
          exact absurd (hvs _ List.mem_cons_self) hc
  | cons u us ih =>
      cases vs with
      | nil =>
          obtain ⟨rfl, -⟩ := List.cons.inj h
          exact absurd (hus _ List.mem_cons_self) hd
      | cons v vs =>
          obtain ⟨rfl, htail⟩ := List.cons.inj h
          obtain ⟨rfl, hcd, hrest⟩ :=
            ih htail (List.forall_mem_cons.mp hus).2 (List.forall_mem_cons.mp hvs).2
          exact ⟨rfl, hcd, hrest⟩

end TemplateCompiler.Parser
