import TemplateCompiler.Proofs.Headers

/-!
# Templates end

Reading a template from tokens in order ends: at the end of the tokens, at the fault that ended
them, or at a number that is none. Eight units of fuel for each token pay for the functions that are
entered before one is read, and a tag takes at least the token it starts with, also when something
is wrong in it.
-/

namespace TemplateCompiler.Parser

open Template (Expr Node)

variable {α β : Type}

/-! ## Runs behind a first token -/

/-- From `s` on, `p` first takes a token and moves on from there, even if it stops. -/
def TakesToken (s : State) (p : Parser α) : Prop :=
  s.Ordered → ∃ t s₁, s.Took t s₁ ∧ Scope.any.Onward s s₁ ∧
    Ends p s (fun _ s' => Scope.any.Onward s₁ s')
      fun e s' => Scope.any.Onward s₁ s' ∧ Scope.any.Stops s e

theorem TakesToken.advance {s : State} {t : Token} {rest : List Token} {f : Token → Parser β}
    (hs : s.unread = t :: rest) (ht : t.kind ≠ .eof)
    (h : ∀ s', s.Took t s' → Moves .any s' (f t) fun _ _ => True) :
    TakesToken s (advance >>= f) := by
  intro ho
  obtain ⟨hordered, htook⟩ := ho.consume hs ht
  have honward : Scope.any.Onward s (s.consume t rest) := htook.onward hordered rfl rfl rfl
  refine ⟨t, _, htook, honward, Ends.step (advance_eq hs ht) ?_⟩
  exact (h _ htook hordered).imp (fun _ _ ⟨ho', _⟩ => ho')
    fun _ _ ⟨ho', he⟩ => ⟨ho', he.before honward⟩

theorem TakesToken.peek {s : State} {t : Token} {rest : List Token} {f : Token → Parser β}
    (hs : s.unread = t :: rest) (h : TakesToken s (f t)) : TakesToken s (peek >>= f) := by
  intro ho
  obtain ⟨u, s₁, htook, honward, hend⟩ := h ho
  exact ⟨u, s₁, htook, honward, Ends.step (peek_eq hs) hend⟩

theorem TakesToken.moves {s : State} {p : Parser α} (h : TakesToken s p) :
    Moves .any s p fun _ _ => True := by
  intro ho
  obtain ⟨t, s₁, -, honward, hend⟩ := h ho
  exact hend.imp (fun _ _ h => ⟨honward.trans h, trivial⟩) fun _ _ ⟨h, he⟩ => ⟨honward.trans h, he⟩

theorem TakesToken.map {s : State} {p : Parser α} {g : α → β} (h : TakesToken s p) :
    TakesToken s (g <$> p) := by
  intro ho
  obtain ⟨t, s₁, htook, honward, hend⟩ := h ho
  exact ⟨t, s₁, htook, honward, Ends.map hend fun _ _ h => h⟩

/-- Also where it meets a problem and recovers, a token was taken. -/
theorem TakesToken.recovering {s : State} {p : Parser α} (h : TakesToken s p) :
    Moves .any s (recovering p) fun _ s' => s'.unread.length < s.unread.length := by
  intro ho
  obtain ⟨t, s₁, htook, honward, hend⟩ := h ho
  have hlt := htook.length_lt
  refine Ends.tryCatch (Ends.map (Q := fun _ s' => Scope.any.Onward s s' ∧
    s'.unread.length < s.unread.length) hend fun _ s' h => ?_) ?_
  · have hlength := h.length_le
    exact ⟨honward.trans h, by omega⟩
  · rintro e s' ⟨h, he⟩
    have hlength := h.length_le
    cases e with
    | complaint c =>
        refine Moves.after (honward.trans h) ?_
        refine Moves.bind (recover_moves c s') fun _ s'' ho' _ => Moves.pure ?_
        have hlength' := ho'.length_le
        omega
    | _ => exact Ends.throw ⟨honward.trans h, he⟩

/-! ## Text, comments and closing tags -/

/-- A block tag with that keyword is next. -/
def State.AtClosing (s : State) (word : String) : Prop :=
  ∃ t u rest, s.unread = t :: u :: rest ∧ t.kind = .blockStart ∧ u.kind = .keyword ∧
    u.value = word

theorem text_moves (setting : Setting) {s : State} {t : Token} {rest : List Token}
    (hs : s.unread = t :: rest) (ht : t.kind = .text) :
    Moves .any s (text setting) fun _ s' => s'.unread.length < s.unread.length := by
  refine Moves.advance hs (by simp [ht]) rfl fun s₁ htook => Moves.peek fun following _ _ => ?_
  exact Moves.get (Moves.modify rfl rfl rfl rfl (Moves.pure htook.length_lt))

theorem comment_moves {s : State} {t : Token} {rest : List Token} (hs : s.unread = t :: rest)
    (ht : t.kind = .commentStart) :
    Moves .any s comment fun _ s' => s'.unread.length < s.unread.length := by
  refine Moves.advance hs (by simp [ht]) rfl fun s₁ htook => ?_
  refine Moves.expect (by decide) rfl rfl fun body s₂ _ htook₂ => ?_
  refine Moves.expect (by decide) rfl rfl fun close s₃ _ htook₃ => Moves.pure ?_
  have hlt := htook.length_lt
  have hlt₂ := htook₂.length_lt
  have hlt₃ := htook₃.length_lt
  omega

theorem closingWord?_moves (closers : List String) {s : State} {t : Token} {rest : List Token}
    (hs : s.unread = t :: rest) :
    Moves .any s (closingWord? closers t) fun o s' =>
      s' = s ∧ ∀ word, o = some word → s.AtClosing word := by
  unfold closingWord?
  split
  · next ht =>
      refine Moves.peekSecond hs (by simp [ht]) fun u more hrest => Moves.pure ⟨rfl, ?_⟩
      intro word hword
      rw [Option.ite_none_right_eq_some, Bool.and_eq_true, decide_eq_true_eq] at hword
      obtain ⟨⟨hkind, -⟩, hvalue⟩ := hword
      exact ⟨t, u, more, hrest ▸ hs, ht, hkind, Option.some.inj hvalue⟩
  · exact Moves.pure ⟨rfl, nofun⟩

/-- The list of nodes ended at a block tag with one of the words, or at the end of the tokens. -/
def State.StopsAt (s : State) (closers : List String) : Option String → Prop
  | some word => closers.contains word ∧ s.AtClosing word
  | none => ∃ t rest, s.unread = t :: rest ∧ t.kind = .eof

theorem closingWord?_stops (closers : List String) {s : State} {t : Token} {rest : List Token}
    (hs : s.unread = t :: rest) :
    Ends (closingWord? closers t) s
      (fun o s' => s' = s ∧ ∀ word, o = some word → s.StopsAt closers (some word))
      fun _ _ => True := by
  unfold closingWord?
  split
  · next ht =>
      cases rest with
      | nil =>
          have hstop : peekSecond s = .error s.beyond s := by
            rw [peekSecond, hs]
            exact if_neg (by simp [ht])
          unfold Ends
          rw [bind_apply_of_error hstop]
          trivial
      | cons u more =>
          refine Ends.step (peekSecond_eq hs (by simp [ht])) (Ends.pure ⟨rfl, ?_⟩)
          intro word hword
          rw [Option.ite_none_right_eq_some, Bool.and_eq_true, decide_eq_true_eq] at hword
          obtain ⟨⟨hkeyword, hcloser⟩, hword⟩ := hword
          obtain rfl := Option.some.inj hword
          exact ⟨hcloser, t, u, more, hs, ht, hkeyword, rfl⟩
  · exact Ends.pure ⟨rfl, by rintro _ ⟨⟩⟩

/-- However much fuel there is, a list of nodes that is returned ended where it should. -/
theorem nodesFrom_stops (setting : Setting) (closers : List String) :
    ∀ (fuel : Nat) (nodes : List Node) (s : State),
      Ends (nodesFrom setting closers fuel nodes) s (fun r s' => s'.StopsAt closers r.2)
        fun _ _ => True
  | 0, nodes, s => by
      rw [nodesFrom]
      exact Ends.throw trivial
  | fuel + 1, nodes, s => by
      -- whatever comes first, the rest of the list ends the list
      have hgo : ∀ {β : Type} (p : Parser β) (g : β → List Node) (s : State),
          Ends (do let b ← p; nodesFrom setting closers fuel (g b)) s
            (fun r s' => s'.StopsAt closers r.2) fun _ _ => True := by
        intro β p g s
        exact Ends.bind (P := fun _ _ => True)
          (Ends.of_forall (fun _ _ => trivial) fun _ _ => trivial)
          fun b s' _ => nodesFrom_stops setting closers fuel (g b) s'
      have hpeek : Ends peek s (fun t s' => s' = s ∧ ∃ rest, s.unread = t :: rest)
          fun _ _ => True := by
        unfold Ends peek
        cases s.unread with
        | nil => trivial
        | cons t rest => exact ⟨rfl, rest, rfl⟩
      rw [nodesFrom]
      refine Ends.bind hpeek ?_
      rintro t _ ⟨rfl, rest, hs⟩
      split
      · next heof => exact Ends.pure ⟨t, rest, hs, heof⟩
      · exact hgo (text setting) (fun node => node.toList ++ nodes) _
      · exact hgo comment (fun _ => nodes) _
      · refine Ends.bind (closingWord?_stops closers hs) ?_
        rintro o _ ⟨rfl, hword⟩
        split
        · next word => exact Ends.pure (hword word rfl)
        · exact hgo (recovering (tag setting fuel)) (fun node => node.join.toList ++ nodes) _

theorem body_stops (setting : Setting) (opening : Token) (construct : String)
    (closers : List String) (fuel : Nat) (s : State) :
    Ends (body setting opening construct closers fuel) s
      (fun r s' => s'.StopsAt closers (some r.2)) fun _ _ => True := by
  cases fuel with
  | zero =>
      rw [body]
      exact Ends.throw trivial
  | succ fuel =>
      rw [body]
      refine Ends.bind (nodesFrom_stops setting closers fuel [] s) fun r s' hstops => ?_
      obtain ⟨nodes, word⟩ := r
      cases word with
      | none => exact Ends.throw trivial
      | some word => exact Ends.pure hstops

theorem endTag_moves (word : String) {s : State} {found : String} (h : s.AtClosing found) :
    Moves .any s (endTag word) fun _ _ => True := by
  obtain ⟨t, u, rest, hs, ht, -⟩ := h
  exact Moves.advance hs (by simp [ht]) rfl fun s' _ => (endTag_closes word s').moves

theorem nextArm_moves {b : BranchSoFar} {s : State} {t : Token} {rest : List Token}
    (hs : s.unread = t :: rest) (ht : t.kind = .keyword) :
    Moves .any s (nextArm b) fun b' _ => b'.armStart = b.armStart := by
  refine Moves.peek fun t' rest' hs' => ?_
  obtain ⟨rfl, rfl⟩ := List.cons.inj (hs.symm.trans hs')
  split
  · exact Moves.bind (recover_moves _ s) fun _ _ _ _ => Moves.pure rfl
  · split
    · refine Moves.advance hs (by simp [ht]) rfl fun s' _ => ?_
      have hend : Moves .any s' expectBlockEnd fun _ _ => True :=
        Moves.of_bind (Moves.expect (by decide) rfl rfl fun _ _ _ _ => Moves.pure trivial)
      exact Moves.bind (recovering_moves hend) fun _ _ _ _ => Moves.pure rfl
    · refine Moves.bind (recovering_moves (condition_closes hs (by rw [ht]; rfl)).moves) ?_
      exact fun _ _ _ _ => Moves.pure rfl

/-! ## One amount of fuel -/

/-- What each function needs to end. A block needs its first word ahead, and a tag any token but the
end. -/
structure TemplatesEnd (setting : Setting) (fuel : Nat) : Prop where
  nodesFrom : ∀ closers nodes s, 8 * s.unread.length + 1 ≤ fuel →
    Moves .any s (nodesFrom setting closers fuel nodes) fun r s' =>
      ∀ word, r.2 = some word → s'.AtClosing word
  tag : ∀ s t rest, s.unread = t :: rest → t.kind ≠ .eof → 8 * s.unread.length ≤ fuel →
    TakesToken s (tag setting fuel)
  statement : ∀ opening s, 8 * s.unread.length + 5 ≤ fuel →
    opening.span.start.offset ≤ s.reached →
    Moves .any s (statement setting opening fuel) fun _ _ => True
  body : ∀ opening construct closers s, 8 * s.unread.length + 2 ≤ fuel →
    Moves .any s (body setting opening construct closers fuel) fun r s' => s'.AtClosing r.2
  branch : ∀ opening s t rest, s.unread = t :: rest → t.kind = .keyword →
    8 * s.unread.length + 4 ≤ fuel → opening.span.start.offset ≤ s.reached →
    Moves .any s (branch setting opening fuel) fun _ _ => True
  armsFrom : ∀ opening b s, 8 * s.unread.length + 3 ≤ fuel →
    opening.span.start.offset ≤ s.reached → b.armStart.offset ≤ s.reached →
    Moves .any s (armsFrom setting opening fuel b) fun _ _ => True
  loop : ∀ opening s t rest, s.unread = t :: rest → t.kind = .keyword →
    8 * s.unread.length + 3 ≤ fuel → opening.span.start.offset ≤ s.reached →
    Moves .any s (loop setting opening fuel) fun _ _ => True
  definition : ∀ opening s t rest, s.unread = t :: rest → t.kind = .keyword →
    8 * s.unread.length + 3 ≤ fuel → opening.span.start.offset ≤ s.reached →
    Moves .any s (definition setting opening fuel) fun _ _ => True
  callBlock : ∀ opening s t rest, s.unread = t :: rest → t.kind = .keyword →
    8 * s.unread.length + 3 ≤ fuel → opening.span.start.offset ≤ s.reached →
    Moves .any s (callBlock setting opening fuel) fun _ _ => True

theorem templatesEnd_zero (setting : Setting) : TemplatesEnd setting 0 where
  nodesFrom closers nodes s h := by omega
  tag s t rest hs ht h := by
    rw [hs, List.length_cons] at h
    omega
  statement opening s h := by omega
  body opening construct closers s h := by omega
  branch opening s t rest hs ht h := by omega
  armsFrom opening b s h := by omega
  loop opening s t rest hs ht h := by omega
  definition opening s t rest hs ht h := by omega
  callBlock opening s t rest hs ht h := by omega

section

variable {setting : Setting} {fuel : Nat} (ih : TemplatesEnd setting fuel)

include ih

theorem nodesFrom_moves {closers : List String} {nodes : List Node} {s : State}
    (h : 8 * s.unread.length + 1 ≤ fuel + 1) :
    Moves .any s (nodesFrom setting closers (fuel + 1) nodes) fun r s' =>
      ∀ word, r.2 = some word → s'.AtClosing word := by
  rw [nodesFrom]
  refine Moves.peek fun t rest hs => ?_
  split
  · exact Moves.pure nofun
  · next ht =>
      refine Moves.bind (text_moves setting hs ht) fun node s' _ hlt => ?_
      exact ih.nodesFrom closers _ s' (by omega)
  · next ht =>
      refine Moves.bind (comment_moves hs ht) fun _ s' _ hlt => ?_
      exact ih.nodesFrom closers nodes s' (by omega)
  · next ht _ _ =>
      refine Moves.bind (closingWord?_moves closers hs) ?_
      rintro o s - ⟨rfl, ho⟩
      split
      · next word =>
          refine Moves.pure fun word' hword => ?_
          obtain rfl := Option.some.inj hword
          exact ho _ rfl
      · refine Moves.bind (ih.tag s t rest hs ht (by omega)).recovering fun node s' _ hlt => ?_
        exact ih.nodesFrom closers _ s' (by omega)

theorem tag_moves {s : State} {t : Token} {rest : List Token} (hs : s.unread = t :: rest)
    (ht : t.kind ≠ .eof) (h : 8 * s.unread.length ≤ fuel + 1) :
    TakesToken s (tag setting (fuel + 1)) := by
  rw [tag]
  refine TakesToken.peek hs ?_
  split
  · refine TakesToken.map (TakesToken.advance hs ht fun s' htook => ?_)
    exact (output_closes setting s' htook.start_le_reached).moves
  · refine TakesToken.advance hs ht fun s' htook => ?_
    have hlt := htook.length_lt
    have hle := htook.forward
    have hreached := htook.reached
    exact ih.statement t s' (by omega) (by omega)
  · exact TakesToken.advance hs ht fun s' _ => Moves.complain rfl

theorem statement_moves {opening : Token} {s : State} (h : 8 * s.unread.length + 5 ≤ fuel + 1)
    (hopen : opening.span.start.offset ≤ s.reached) :
    Moves .any s (statement setting opening (fuel + 1)) fun _ _ => True := by
  rw [statement]
  refine Moves.peek fun t rest hs => ?_
  split
  · next ht =>
      have hinner : t.kind.isInner := by
        rw [ht]
        rfl
      split
      · exact ih.branch opening s t rest hs ht (by omega) hopen
      · exact ih.loop opening s t rest hs ht (by omega) hopen
      · exact ih.definition opening s t rest hs ht (by omega) hopen
      · exact ih.callBlock opening s t rest hs ht (by omega) hopen
      · exact Moves.map (inclusion_closes hs hinner setting hopen).moves fun _ _ _ _ => trivial
      · exact Moves.map (assignment_closes hs hinner setting hopen).moves fun _ _ _ _ => trivial
      · exact Moves.map (assignment_closes hs hinner setting hopen).moves fun _ _ _ _ => trivial
      · split <;> exact Moves.complain rfl
  · exact Moves.complain rfl
  · exact Moves.complain rfl

theorem body_moves {opening : Token} {construct : String} {closers : List String} {s : State}
    (h : 8 * s.unread.length + 2 ≤ fuel + 1) :
    Moves .any s (body setting opening construct closers (fuel + 1)) fun r s' =>
      s'.AtClosing r.2 := by
  rw [body]
  refine Moves.bind (ih.nodesFrom closers [] s (by omega)) fun r s' _ hword => ?_
  obtain ⟨nodes, word⟩ := r
  cases word with
  | none => exact Moves.complain rfl
  | some word => exact Moves.pure (hword word rfl)

theorem branch_moves {opening : Token} {s : State} {t : Token} {rest : List Token}
    (hs : s.unread = t :: rest) (ht : t.kind = .keyword) (h : 8 * s.unread.length + 4 ≤ fuel + 1)
    (hopen : opening.span.start.offset ≤ s.reached) :
    Moves .any s (branch setting opening (fuel + 1)) fun _ _ => True := by
  rw [branch]
  refine Moves.bind (recovering_moves (condition_closes hs (by rw [ht]; rfl)).moves) ?_
  intro header s' ho _
  have hlength := ho.length_le
  have hreached := Nat.le_trans hopen ho.reached
  exact ih.armsFrom opening _ s' (by omega) hreached hreached

theorem armsFrom_moves {opening : Token} {b : BranchSoFar} {s : State}
    (h : 8 * s.unread.length + 3 ≤ fuel + 1) (hopen : opening.span.start.offset ≤ s.reached)
    (harm : b.armStart.offset ≤ s.reached) :
    Moves .any s (armsFrom setting opening (fuel + 1) b) fun _ _ => True := by
  rw [armsFrom]
  refine Moves.bind (ih.body opening "if" _ s (by omega)) fun r s₁ ho hclosing => ?_
  refine Moves.spanFrom (Nat.le_trans harm ho.reached) fun armSpan => ?_
  have hlength := ho.length_le
  have hopen₁ := Nat.le_trans hopen ho.reached
  split
  · refine Moves.bind (endTag_moves "endif" hclosing) fun _ s₂ ho₂ _ => ?_
    split
    · exact Moves.pure trivial
    · exact Moves.spanFrom (Nat.le_trans hopen₁ ho₂.reached) fun span => Moves.pure trivial
  · obtain ⟨t, u, rest, hs, ht, hu, -⟩ := hclosing
    refine Moves.advance hs (by simp [ht]) rfl fun s₂ htook => ?_
    have hs₂ : s₂.unread = u :: rest := (List.cons.inj (htook.unread.symm.trans hs)).2
    have hlt := htook.length_lt
    have hle := htook.le_reached
    refine Moves.bind (nextArm_moves hs₂ hu) fun b' s₃ ho₃ hstart => ?_
    have hlength₃ := ho₃.length_le
    refine ih.armsFrom opening b' s₃ (by omega) ?_ ?_
    · exact Nat.le_trans (Nat.le_trans hopen₁ hle) ho₃.reached
    · rw [hstart]
      refine Nat.le_trans htook.forward (Nat.le_trans ?_ ho₃.reached)
      exact Nat.le_of_eq htook.reached.symm

omit ih in
theorem loopEnd_moves {opening : Token} {header : Option (List String × Expr)}
    {nodes otherwise : List Node} {s : State} {word : String} (hclosing : s.AtClosing word)
    (hopen : opening.span.start.offset ≤ s.reached) :
    Moves .any s (loopEnd setting opening header nodes otherwise) fun _ _ => True := by
  refine Moves.bind (endTag_moves "endfor" hclosing) fun _ s' ho _ => ?_
  split
  · exact Moves.pure trivial
  · exact Moves.spanFrom (Nat.le_trans hopen ho.reached) fun span => Moves.pure trivial

theorem loop_moves {opening : Token} {s : State} {t : Token} {rest : List Token}
    (hs : s.unread = t :: rest) (ht : t.kind = .keyword) (h : 8 * s.unread.length + 3 ≤ fuel + 1)
    (hopen : opening.span.start.offset ≤ s.reached) :
    Moves .any s (loop setting opening (fuel + 1)) fun _ _ => True := by
  rw [loop_succ]
  refine Moves.bind (recovering_moves (loopHeader_closes hs (by rw [ht]; rfl)).moves) ?_
  intro header s₁ ho₁ _
  have hlength₁ := ho₁.length_le
  refine Moves.bind (ih.body opening "for" _ s₁ (by omega)) fun r s₂ ho₂ hclosing => ?_
  have hlength₂ := ho₂.length_le
  have hopen₂ := Nat.le_trans (Nat.le_trans hopen ho₁.reached) ho₂.reached
  dsimp only
  split
  · refine Moves.bind (endTag_moves "else" hclosing) fun _ s₃ ho₃ _ => ?_
    have hlength₃ := ho₃.length_le
    refine Moves.bind (ih.body opening "for" _ s₃ (by omega)) fun o s₄ ho₄ hclosing => ?_
    rw [pure_bind]
    exact loopEnd_moves hclosing (Nat.le_trans (Nat.le_trans hopen₂ ho₃.reached) ho₄.reached)
  · rw [pure_bind]
    exact loopEnd_moves hclosing hopen₂

theorem definition_moves {opening : Token} {s : State} {t : Token} {rest : List Token}
    (hs : s.unread = t :: rest) (ht : t.kind = .keyword) (h : 8 * s.unread.length + 3 ≤ fuel + 1)
    (hopen : opening.span.start.offset ≤ s.reached) :
    Moves .any s (definition setting opening (fuel + 1)) fun _ _ => True := by
  rw [definition]
  refine Moves.bind (recovering_moves
    (definitionHeader_closes hs (by rw [ht]; rfl) setting).moves) fun header s₁ ho₁ _ => ?_
  have hlength₁ := ho₁.length_le
  refine Moves.bind (ih.body opening "macro" _ s₁ (by omega)) fun r s₂ ho₂ hclosing => ?_
  refine Moves.bind (endTag_moves "endmacro" hclosing) fun _ s₃ ho₃ _ => ?_
  have hopen₃ :=
    Nat.le_trans (Nat.le_trans (Nat.le_trans hopen ho₁.reached) ho₂.reached) ho₃.reached
  split
  · exact Moves.pure trivial
  · exact Moves.spanFrom hopen₃ fun span => Moves.pure trivial

theorem callBlock_moves {opening : Token} {s : State} {t : Token} {rest : List Token}
    (hs : s.unread = t :: rest) (ht : t.kind = .keyword) (h : 8 * s.unread.length + 3 ≤ fuel + 1)
    (hopen : opening.span.start.offset ≤ s.reached) :
    Moves .any s (callBlock setting opening (fuel + 1)) fun _ _ => True := by
  rw [callBlock]
  refine Moves.bind (recovering_moves (callHeader_closes hs (by rw [ht]; rfl)).moves) ?_
  intro header s₁ ho₁ _
  have hlength₁ := ho₁.length_le
  refine Moves.bind (ih.body opening "call" _ s₁ (by omega)) fun r s₂ ho₂ hclosing => ?_
  refine Moves.bind (endTag_moves "endcall" hclosing) fun _ s₃ ho₃ _ => ?_
  have hopen₃ :=
    Nat.le_trans (Nat.le_trans (Nat.le_trans hopen ho₁.reached) ho₂.reached) ho₃.reached
  split
  · exact Moves.pure trivial
  · exact Moves.spanFrom hopen₃ fun span => Moves.pure trivial

end

/-! ## Every amount of fuel -/

theorem templatesEnd (setting : Setting) : ∀ fuel, TemplatesEnd setting fuel
  | 0 => templatesEnd_zero setting
  | fuel + 1 =>
      have ih := templatesEnd setting fuel
      { nodesFrom := fun _ _ _ h => nodesFrom_moves ih h
        tag := fun _ _ _ hs ht h => tag_moves ih hs ht h
        statement := fun _ _ h hopen => statement_moves ih h hopen
        body := fun _ _ _ _ h => body_moves ih h
        branch := fun _ _ _ _ hs ht h hopen => branch_moves ih hs ht h hopen
        armsFrom := fun _ _ _ h hopen harm => armsFrom_moves ih h hopen harm
        loop := fun _ _ _ _ hs ht h hopen => loop_moves ih hs ht h hopen
        definition := fun _ _ _ _ hs ht h hopen => definition_moves ih hs ht h hopen
        callBlock := fun _ _ _ _ hs ht h hopen => callBlock_moves ih hs ht h hopen }

/-- There is a span from the start of a source once something was read or while something is
ahead. -/
theorem between_initial (stop : Position) (unit : String) :
    Span.between .initial stop unit = .ok ⟨.initial, stop, unit⟩ :=
  if_neg (Nat.not_lt_zero _)

theorem spanFrom_initial {s : State} (unit : String) (h : s.previous = none → s.unread ≠ []) :
    ∃ span, spanFrom unit .initial s = .ok span s := by
  obtain ⟨stop, hstop⟩ : ∃ stop, s.lastEnd? = some stop := by
    cases hprevious : s.previous with
    | some t => exact ⟨_, State.lastEnd?_of_previous hprevious⟩
    | none =>
        obtain ⟨u, rest, hunread⟩ := List.exists_cons_of_ne_nil (h hprevious)
        exact ⟨u.span.start, by rw [State.lastEnd?, hprevious, hunread]; rfl⟩
  refine ⟨⟨.initial, stop, unit⟩, ?_⟩
  rw [spanFrom_eq hstop, between_initial]
  rfl

/-- A template is read up to an end, or a lexical fault empties it and is complained about. -/
theorem templateBody_ends_of {setting : Setting} {s : State} {Q : List Node → State → Prop}
    (hnodes : Ends (nodesFrom setting [] (templateFuel s.unread.length) []) s
      (fun r s' => (∃ t rest, s'.unread = t :: rest ∧ t.kind = .eof) → Q r.1 s')
      fun _ s' => ∀ c fault, Q [] { s' with fault := fault, complaints := s'.complaints ++ [c] }) :
    Ends (templateBody setting) s Q fun _ _ => True := by
  have hstops := nodesFrom_stops setting [] (templateFuel s.unread.length) [] s
  unfold Ends templateBody
  cases hrun : nodesFrom setting [] (templateFuel s.unread.length) [] s with
  | ok r s' =>
      obtain ⟨nodes, word⟩ := r
      cases word with
      | some word => exact absurd (hstops.of_ok hrun).1 (by simp)
      | none => exact hnodes.of_ok hrun (hstops.of_ok hrun)
  | error e s' =>
      cases e with
      | lexical fault => exact hnodes.of_error hrun _ _
      | _ => trivial

/-- What is known of the list of all nodes is known of the template. -/
theorem template_ends {setting : Setting} {s : State} {Q : List Node → State → Prop}
    {E : Stop → State → Prop} (ho : s.Ordered) (hfault : s.fault = none)
    (h : Ends (nodesFrom setting [] (templateFuel s.unread.length) []) s (fun r s' => Q r.1 s') E) :
    Ends (template setting) s (fun t s' => Q t.body s') fun e s' =>
      E e s' ∧ Scope.any.Stops s e := by
  have hmoves := (templatesEnd setting (templateFuel s.unread.length)).nodesFrom [] [] s
    (by unfold templateFuel; omega) ho
  have hnodes := h.and hmoves
  have hbody : Ends (templateBody setting) s (fun nodes s' => Q nodes s' ∧ Scope.any.Onward s s')
      fun e s' => E e s' ∧ Scope.any.Stops s e := by
    unfold Ends templateBody at *
    cases hrun : nodesFrom setting [] (templateFuel s.unread.length) [] s with
    | ok r s' =>
        rw [hrun] at hnodes
        exact ⟨hnodes.1, hnodes.2.1⟩
    | error e s' =>
        rw [hrun] at hnodes
        obtain ⟨he, -, hstops⟩ := hnodes
        cases e with
        | lexical f => cases hfault.symm.trans hstops
        | _ => exact ⟨he, hstops⟩
  refine Ends.bind hbody ?_
  rintro nodes s' ⟨hQ, honward⟩
  obtain ⟨t, ht, -⟩ := honward.ordered.ends (honward.fault.trans hfault)
  obtain ⟨span, hspan⟩ := spanFrom_initial setting.unit fun _ => List.ne_nil_of_mem ht
  exact Ends.step hspan (Ends.pure hQ)

/-! ## Sources -/

section

variable {setting : Setting} {delimiters : Delimiters} {source : String}

theorem template_of_parse {p : Parsed} (h : parse setting delimiters source = .ok p) :
    ∃ s', template setting { unread := (tokenize source setting.unit delimiters).1,
                             fault := (tokenize source setting.unit delimiters).2 } =
        .ok p.template s' ∧ s'.complaints = p.complaints := by
  unfold parse parseTokens at h
  dsimp only at h
  split at h
  · next t s' hrun =>
      obtain rfl := Except.ok.inj h
      exact ⟨s', hrun, rfl⟩
  · cases h

theorem template_of_parse_error {stop : Stop} (h : parse setting delimiters source = .error stop) :
    ∃ s', template setting { unread := (tokenize source setting.unit delimiters).1,
                             fault := (tokenize source setting.unit delimiters).2 } =
        .error stop s' := by
  unfold parse parseTokens at h
  dsimp only at h
  split at h
  · cases h
  · next e s' hrun =>
      obtain rfl := Except.error.inj h
      exact ⟨s', hrun⟩

end

/-- Tokens in order, up to the end of their source. -/
structure Ended (ts : List Token) : Prop where
  apart : ts.Pairwise fun t u => t.span.stop.offset ≤ u.span.start.offset
  forward : ∀ t ∈ ts, t.span.start.offset ≤ t.span.stop.offset
  ends : ∃ t ∈ ts, t.kind = .eof

theorem Ended.ordered {ts : List Token} (h : Ended ts) :
    State.Ordered { unread := ts, fault := none } :=
  ⟨h.apart, h.forward, fun _ _ => Nat.zero_le _, fun _ => h.ends⟩

end TemplateCompiler.Parser
