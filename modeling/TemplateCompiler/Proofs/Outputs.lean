import TemplateCompiler.Proofs.ExpressionComplete
import TemplateCompiler.Proofs.StatementSound
import TemplateCompiler.Proofs.StatementTotal

/-!
# What an output accepts

The tokens between the delimiters of an output are accepted exactly if the grammar gives them an
expression, and then that expression is the output, up to spans. The grammar is unambiguous, since
the parser reads one expression at most.
-/

namespace TemplateCompiler

open Template (Expr Node)

/-- A token as it stands in a tag: no delimiter, and if it is a number, one that can be read. -/
structure Token.InTag (t : Token) : Prop where
  inner : t.kind.isInner
  number : t.kind = .number → ∃ value, NumberText t.value value

namespace Parser

theorem Stop.Accidental.not_stops {scope : Scope} {s : State} {e : Stop}
    (h : e.Accidental) : ¬ scope.Stops s e := by
  cases e with
  | outOfFuel | reversed => exact id
  | _ => exact h.elim

/-! ## From the parser to the grammar -/

/-- What is read between two delimiters is all that stands there, and the grammar gives it the
expression that is read. -/
theorem expression_denotes {ts rest : List Token} {closing : Token} {s : State} (ho : s.Ordered)
    (hs : s.unread = ts ++ closing :: rest) (hts : ∀ t ∈ ts, t.InTag)
    (hclose : closing.kind = .exprEnd) :
    Ends (do
      let e ← expression
      let _ ← expect .exprEnd .expectedExprEnd
      return e) s (fun e s' => s'.unread = rest ∧ Denotes ts (.expr .disjunction e.bare))
      fun _ _ => True := by
  have hread := (expression_reads s).and (expression_moves s ho)
  refine Ends.bind (hread.imp (fun _ _ h => h) fun _ _ _ => trivial) ?_
  rintro e s' ⟨⟨us, hus, hd⟩, honward, -⟩
  obtain ⟨vs, hvs, hinner⟩ := honward.ahead
  obtain rfl : us = vs := List.append_cancel_right (hus.symm.trans hvs)
  have hexpect : Reads [] s' (do
      let _ ← expect .exprEnd .expectedExprEnd
      return e) fun e' us => e' = e ∧ ∃ close, us = [close] ∧ close.kind = .exprEnd :=
    Reads.expect (by decide) fun close s'' hk => Reads.pure ⟨rfl, close, rfl, hk⟩
  refine Ends.imp hexpect ?_ fun _ _ _ => trivial
  rintro _ s'' ⟨_, hclosed, rfl, close, rfl, hk⟩
  have hcut : us ++ close :: s''.unread = ts ++ closing :: rest := by
    rw [← hs, hus, hclosed]
    rfl
  obtain ⟨rfl, -, hrest⟩ := cut_unique hcut hinner (fun t ht => (hts t ht).inner)
    (by simp [hk, TokenKind.isInner]) (by simp [hclose, TokenKind.isInner])
  exact ⟨hrest, hd.denotes fun t ht => (hts t ht).number⟩

theorem output_denotes (setting : Setting) {ts rest : List Token} {opening closing : Token}
    {s : State} (ho : s.Ordered) (hs : s.unread = opening :: (ts ++ closing :: rest))
    (hopen : opening.kind = .exprStart) (hts : ∀ t ∈ ts, t.InTag)
    (hclose : closing.kind = .exprEnd) :
    Ends (output setting) s (fun n s' => s'.unread = rest ∧
      ∃ e span, n = .output e span ∧ Denotes ts (.expr .disjunction e.bare)) fun _ _ => True := by
  have hne : opening.kind ≠ .eof := by simp [hopen]
  refine Ends.step (advance_eq hs hne) ?_
  have hassoc : (do
        let e ← expression
        let _ ← expect .exprEnd .expectedExprEnd
        return (.output e (← spanFrom setting.unit opening.span.start) : Node)) = (do
        let e ← (do
          let e ← expression
          let _ ← expect .exprEnd .expectedExprEnd
          return e)
        return (.output e (← spanFrom setting.unit opening.span.start) : Node)) := by
    simp only [bind_assoc, pure_bind]
  rw [hassoc]
  refine Ends.bind (expression_denotes (ho.consume hs hne).1 rfl hts hclose) ?_
  rintro e s'' ⟨hs'', hd⟩
  have hspan : Reads [] s'' (do
      return (.output e (← spanFrom setting.unit opening.span.start) : Node))
      fun n us => us = [] ∧ ∃ span, n = .output e span :=
    Reads.spanFrom fun span s₃ => Reads.pure ⟨rfl, span, rfl⟩
  refine Ends.imp hspan ?_ fun _ _ _ => trivial
  rintro n s₃ ⟨_, hunread, rfl, span, rfl⟩
  exact ⟨hunread.symm.trans hs'', e, span, rfl, hd⟩

theorem closingWord?_eq_none {closers : List String} {t : Token} {s : State}
    (ht : t.kind ≠ .blockStart) : closingWord? closers t s = .ok none s := by
  unfold closingWord?
  rw [if_neg ht]
  rfl

theorem nodesFrom_denotes (setting : Setting) {ts : List Token} {opening closing final : Token}
    {s : State} {fuel : Nat} (ho : s.Ordered)
    (hs : s.unread = opening :: (ts ++ [closing, final])) (hopen : opening.kind = .exprStart)
    (hts : ∀ t ∈ ts, t.InTag) (hclose : closing.kind = .exprEnd) (hfinal : final.kind = .eof)
    (hfuel : 8 * s.unread.length + 1 ≤ fuel + 2) :
    Ends (nodesFrom setting [] (fuel + 2) []) s (fun r s' => s'.complaints = [] →
      ∃ e span, r.1 = [.output e span] ∧ Denotes ts (.expr .disjunction e.bare))
      fun _ _ => True := by
  have hne : opening.kind ≠ .eof := by simp [hopen]
  have htag : Ends (tag setting (fuel + 1)) s (fun o s' => ∃ e span, o = some (.output e span) ∧
      s'.unread = [final] ∧ Denotes ts (.expr .disjunction e.bare)) fun _ _ => True := by
    rw [tag]
    refine Ends.step (peek_eq hs) ?_
    simp only [hopen]
    refine Ends.map (output_denotes setting ho hs hopen hts hclose) ?_
    rintro n s' ⟨hunread, e, span, rfl, hd⟩
    exact ⟨e, span, rfl, hunread, hd⟩
  have htakes := (templatesEnd setting (fuel + 1)).tag s opening _ hs hne (by omega)
  have hmoves : Moves .any s (tag setting (fuel + 1)) _ := fun ho =>
    ((htakes.moves ho).and htag).imp (fun _ _ h => ⟨h.1.1, h.2⟩) fun _ _ h => h.1
  rw [nodesFrom]
  refine Ends.step (peek_eq hs) ?_
  simp only [hopen]
  refine Ends.step (closingWord?_eq_none (by simp [hopen])) ?_
  have hrecovering := (recovering_moves hmoves ho).and (htakes.recovering ho)
  refine Ends.bind (hrecovering.imp (fun _ _ h => h) fun _ _ _ => trivial) ?_
  rintro o s' ⟨⟨honward, hcases⟩, -, hlt⟩
  rcases hcases with ⟨_, rfl, e, span, rfl, hunread, hd⟩ | ⟨rfl, hcomplaints⟩
  · -- only the end is left
    rw [nodesFrom]
    refine Ends.step (peek_eq hunread) ?_
    simp only [hfinal]
    exact Ends.pure fun _ => ⟨e, span, rfl, hd⟩
  · -- a complaint is never taken back
    refine Ends.imp ((templatesEnd setting (fuel + 1)).nodesFrom [] _ s' (by omega) honward.ordered)
      ?_ fun _ _ _ => trivial
    rintro r s'' ⟨ho', -⟩ hnone
    obtain ⟨cs, hcs, -⟩ := ho'.complaints
    rw [hnone] at hcs
    exact absurd (List.append_eq_nil_iff.mp hcs.symm).1 hcomplaints

/-! ## From the grammar to the parser -/

theorem output_yields (setting : Setting) {ts rest : List Token} {opening closing : Token}
    {b : Expr} {s : State} (hs : s.unread = opening :: (ts ++ closing :: rest))
    (hopen : opening.kind = .exprStart) (hd : Denotes ts (.expr .disjunction b))
    (hclose : closing.kind = .exprEnd) (hrest : rest ≠ []) :
    Yields s (output setting) fun n s' => s.Past (opening :: (ts ++ [closing])) s' ∧
      ∃ e span, n = .output e span ∧ e.bare = b := by
  refine Yields.advance hs (by simp [hopen]) fun s₁ hp => ?_
  have hs₁ := hp.rest_eq hs
  refine Yields.bind (expression_yields hd hs₁ (by simp [hclose])) fun e s₂ ⟨hp₂, he⟩ => ?_
  have hs₂ := hp₂.unread_eq hs₁
  refine Yields.expect hs₂ hclose (by decide) fun s₃ hp₃ => ?_
  refine Yields.spanFrom (by rwa [hp₃.rest_eq hs₂]) fun span => Yields.pure ⟨?_, e, span, rfl, he⟩
  exact hp.trans (hp₂.trans hp₃)

theorem tag_yields_output (setting : Setting) {ts rest : List Token} {opening closing : Token}
    {b : Expr} {s : State} (hs : s.unread = opening :: (ts ++ closing :: rest))
    (hopen : opening.kind = .exprStart) (hd : Denotes ts (.expr .disjunction b))
    (hclose : closing.kind = .exprEnd) (hrest : rest ≠ []) (fuel : Nat) :
    Yields s (tag setting fuel) fun o s' => s.Past (opening :: (ts ++ [closing])) s' ∧
      ∃ e span, o = some (.output e span) ∧ e.bare = b := by
  cases fuel with
  | zero =>
      rw [tag]
      exact Yields.outOfFuel
  | succ fuel =>
      rw [tag]
      refine Yields.peek hs ?_
      simp only [hopen]
      refine Yields.map (output_yields setting hs hopen hd hclose hrest) ?_
      rintro n s' ⟨hp, e, span, rfl, he⟩
      exact ⟨hp, e, span, rfl, he⟩

theorem nodesFrom_yields_output (setting : Setting) {ts : List Token}
    {opening closing final : Token} {b : Expr} {s : State}
    (hs : s.unread = opening :: (ts ++ [closing, final])) (hopen : opening.kind = .exprStart)
    (hd : Denotes ts (.expr .disjunction b)) (hclose : closing.kind = .exprEnd)
    (hfinal : final.kind = .eof) (fuel : Nat) :
    Yields s (nodesFrom setting [] (fuel + 2) []) fun r s' => s'.complaints = s.complaints ∧
      ∃ e span, r.1 = [.output e span] ∧ e.bare = b := by
  rw [nodesFrom]
  refine Yields.peek hs ?_
  simp only [hopen]
  refine Yields.step (closingWord?_eq_none (by simp [hopen])) ?_
  have htag := tag_yields_output setting hs hopen hd hclose (List.cons_ne_nil _ _) (fuel + 1)
  refine Yields.bind htag.recovering ?_
  rintro o s' ⟨_, rfl, hp, e, span, rfl, he⟩
  rw [nodesFrom]
  have hunread : s'.unread = [final] := hp.unread_eq (by simpa using hs)
  refine Yields.peek hunread ?_
  simp only [hfinal]
  exact Yields.pure ⟨hp.complaints, e, span, rfl, he⟩

end Parser

/-! ## Both directions -/

section

variable {setting : Parser.Setting} {opening closing final : Token} {ts : List Token}

/-- A template all of whose nodes are read without a complaint. -/
theorem parseTokens_of_yields {Q : List Node → Prop} (hts : Parser.Ended ts)
    (h : Parser.Yields { unread := ts, fault := none }
      (Parser.nodesFrom setting [] (Parser.templateFuel ts.length) [])
      fun r s' => s'.complaints = [] ∧ Q r.1) :
    ∃ t, parseTokens setting ts none = .ok ⟨t, []⟩ ∧ Q t.body := by
  obtain ⟨t, s', hrun, hcomplaints, hbody⟩ :=
    (Parser.template_ends (Q := fun nodes s' => s'.complaints = [] ∧ Q nodes) hts.ordered rfl
      h).exists_ok fun e s' ⟨haccidental, hstops⟩ => haccidental.not_stops hstops
  refine ⟨t, ?_, hbody⟩
  unfold parseTokens
  rw [hrun, ← hcomplaints]

theorem templateFuel_of_output : ∃ fuel,
    Parser.templateFuel (opening :: (ts ++ [closing, final])).length = fuel + 2 := by
  refine ⟨8 * (opening :: (ts ++ [closing, final])).length + 6, ?_⟩
  unfold Parser.templateFuel
  omega

/-- What is accepted without a complaint is an expression of the grammar. -/
theorem denotes_of_parseTokens (hopen : opening.kind = .exprStart)
    (hclose : closing.kind = .exprEnd) (hfinal : final.kind = .eof) (hts : ∀ t ∈ ts, t.InTag)
    (hordered : Parser.Ended (opening :: (ts ++ [closing, final]))) {t : Template} {e : Expr}
    {span : Span} (hparse : parseTokens setting (opening :: (ts ++ [closing, final])) none =
      .ok ⟨t, []⟩) (hbody : t.body = [.output e span]) :
    Denotes ts (.expr .disjunction e.bare) := by
  obtain ⟨fuel, hfuel⟩ := @templateFuel_of_output opening closing final ts
  have henough : 8 * (opening :: (ts ++ [closing, final])).length + 1 ≤ fuel + 2 := by
    unfold Parser.templateFuel at hfuel
    omega
  have hread := Parser.nodesFrom_denotes setting hordered.ordered rfl hopen hts hclose hfinal
    henough
  rw [← hfuel] at hread
  unfold parseTokens at hparse
  split at hparse
  · next t' s' hrun =>
      obtain ⟨rfl, hcomplaints⟩ := Parsed.mk.inj (Except.ok.inj hparse)
      obtain ⟨e', span', hbody', hd⟩ :=
        (Parser.template_ends (Q := fun nodes s' => s'.complaints = [] → ∃ e span,
          nodes = [.output e span] ∧ Denotes ts (.expr .disjunction e.bare))
          hordered.ordered rfl hread).of_ok hrun hcomplaints
      obtain ⟨rfl, -⟩ := Node.output.inj (List.singleton_inj.mp (hbody.symm.trans hbody'))
      exact hd
  · cases hparse

/-- An expression of the grammar is accepted without a complaint. -/
theorem parseTokens_of_denotes (hopen : opening.kind = .exprStart)
    (hclose : closing.kind = .exprEnd) (hfinal : final.kind = .eof)
    (hordered : Parser.Ended (opening :: (ts ++ [closing, final]))) {b : Expr}
    (hd : Denotes ts (.expr .disjunction b)) :
    ∃ t e span, parseTokens setting (opening :: (ts ++ [closing, final])) none = .ok ⟨t, []⟩ ∧
      t.body = [.output e span] ∧ e.bare = b := by
  obtain ⟨fuel, hfuel⟩ := @templateFuel_of_output opening closing final ts
  have hread := Parser.nodesFrom_yields_output setting (s := { unread := _, fault := none }) rfl
    hopen hd hclose hfinal fuel
  rw [← hfuel] at hread
  obtain ⟨t, hparse, e, span, hbody, he⟩ :=
    parseTokens_of_yields (Q := fun nodes => ∃ e span, nodes = [.output e span] ∧ e.bare = b)
      hordered hread
  exact ⟨t, e, span, hparse, hbody, he⟩

/-- The tokens in an output are an expression of the grammar exactly if they are accepted without a
complaint, and the output is that expression. -/
theorem parseTokens_output_iff (hopen : opening.kind = .exprStart)
    (hclose : closing.kind = .exprEnd) (hfinal : final.kind = .eof) (hts : ∀ t ∈ ts, t.InTag)
    (hordered : Parser.Ended (opening :: (ts ++ [closing, final]))) (b : Expr) :
    (∃ t e span, parseTokens setting (opening :: (ts ++ [closing, final])) none = .ok ⟨t, []⟩ ∧
      t.body = [.output e span] ∧ e.bare = b) ↔ Denotes ts (.expr .disjunction b) := by
  constructor
  · rintro ⟨t, e, span, hparse, hbody, rfl⟩
    exact denotes_of_parseTokens hopen hclose hfinal hts hordered hparse hbody
  · exact parseTokens_of_denotes hopen hclose hfinal hordered

end

/-- `a not in 2 + b`: a comparison, whose right operand is a sum. -/
theorem output_of_not_in_sum :
    let token := fun kind value n => (⟨kind, value, value, ⟨⟨1, n, n⟩, ⟨1, n, n⟩, ""⟩⟩ : Token)
    let ts := [token .identifier "a" 3, token .keyword "not" 5, token .keyword "in" 9,
      token .number "2" 12, token .operator "+" 14, token .identifier "b" 16]
    ∃ t e span, parseTokens ⟨"", .preserve⟩
        (token .exprStart "" 0 :: (ts ++ [token .exprEnd "" 18, token .eof "" 20])) none =
          .ok ⟨t, []⟩ ∧
      t.body = [.output e span] ∧
      e.bare = .binary .notIn (.var "a" .blank)
        (.binary .add (.literal (.integer 2) .blank) (.var "b" .blank) .blank) .blank := by
  intro token ts
  have hdigit : NumberText "2" (.integer 2) :=
    @NumberText.integer ['2'] (List.cons_ne_nil _ _) (by decide)
      (List.forall_mem_singleton.mpr (by decide))
  have hts : ∀ t ∈ ts, t.InTag := by
    intro t ht
    simp only [ts, List.mem_cons, List.not_mem_nil, or_false] at ht
    rcases ht with rfl | rfl | rfl | rfl | rfl | rfl <;> refine ⟨rfl, fun h => ?_⟩ <;>
      first | exact ⟨_, hdigit⟩ | cases h
  have hordered : Parser.Ended
      (token .exprStart "" 0 :: (ts ++ [token .exprEnd "" 18, token .eof "" 20])) :=
    ⟨by decide, by decide, ⟨token .eof "" 20, by simp, rfl⟩⟩
  refine (parseTokens_output_iff rfl rfl rfl hts hordered _).mpr ?_
  have hname : ∀ value n level, Denotes [token .identifier value n]
      (.expr level (.var value .blank)) :=
    fun value n level => Denotes.loosen (.name rfl) level.rank_le
  have htwo : Denotes [token .number "2" 12] (.expr .sum (.literal (.integer 2) .blank)) :=
    Denotes.loosen (.number rfl hdigit) (by decide)
  have hsum := @Denotes.binary _ [token .operator "+" 14] _ .add .product _ _ htwo rfl (by decide)
    (hname "b" 16 _)
  have hcomparison := @Denotes.binary _ [token .keyword "not" 5, token .keyword "in" 9] _ .notIn
    .concatenation _ _ (hname "a" 3 _) rfl (by decide) (hsum.loosen (by decide))
  exact hcomparison.loosen (by decide)

end TemplateCompiler
