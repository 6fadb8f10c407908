import TemplateCompiler.Proofs.ExpressionSound

/-!
# Templates are composed of what is read

Every node that the parser keeps is composed of tokens that it read, and nodes that stand side by
side are composed of tokens that do, in the same order. This holds of what is left of a faulty
source as well: a tag that is skipped contributes no node, but its tokens are read.

As for expressions, the soundness of all functions at one amount of fuel is one statement.
-/

namespace TemplateCompiler.Parser

open Template (Expr Node)

/-! ## Text, comments and end tags -/

theorem text_reads {setting : Setting} {s : State} {t : Token} {rest : List Token}
    (hs : s.unread = t :: rest) (ht : t.kind = .text) :
    Reads [] s (text setting) fun o us =>
      us = [t] ∧ ∀ n, o = some n → ∃ value, n = .text value t.span := by
  refine Reads.advance_of hs (by simp [ht]) fun s' _ => ?_
  refine Reads.peek fun following _ _ => Reads.get (Reads.modify rfl (Reads.pure ⟨rfl, ?_⟩))
  intro n hn
  rw [Option.ite_none_left_eq_some] at hn
  exact ⟨_, (Option.some.inj hn.2).symm⟩

theorem comment_reads (s : State) : Reads [] s comment fun _ _ => True := by
  refine Reads.advance fun t s' => ?_
  exact Reads.expect (by decide) fun _ _ _ => Reads.expect (by decide) fun _ _ _ =>
    Reads.pure trivial

theorem endTag_reads (word : String) (s : State) : Reads [] s (endTag word) fun _ _ => True :=
  Reads.advance fun _ _ => Reads.expectKeyword fun _ _ _ => Reads.expect (by decide) fun _ _ _ =>
    Reads.pure trivial

theorem closingWord?_reads (closers : List String) {t : Token} {rest : List Token} {s : State}
    (hs : s.unread = t :: rest) :
    Reads [] s (closingWord? closers t) fun _ us => us = [] := by
  unfold closingWord?
  split
  · next ht => exact Reads.peekSecond hs (by simp [ht]) fun _ _ _ => Reads.pure rfl
  · exact Reads.pure rfl

/-! ## Headers and tags without a body -/

theorem output_reads (setting : Setting) (s : State) :
    Reads [] s (output setting) fun n us => Composes us (.node n) := by
  refine Reads.advance fun opening s' => ?_
  refine Reads.bind (expression_reads s') fun e us s'' he => ?_
  refine Reads.expect (by decide) fun close s3 _ => Reads.spanFrom fun span s4 => Reads.pure ?_
  exact .output ⟨us, by simp, he⟩

theorem condition_reads (s : State) : Reads [] s condition fun e us => Spells us e := by
  refine Reads.advance fun word s' => ?_
  refine Reads.bind (expression_reads s') fun e us s'' he => ?_
  exact Reads.expect (by decide) fun close s3 _ => Reads.pure ⟨us, by simp, he⟩

theorem targetsFrom_reads : ∀ (fuel : Nat) (targets : List String) (s : State),
    Reads [] s (targetsFrom fuel targets) fun _ _ => True
  | 0, _, _ => Reads.throw
  | fuel + 1, targets, s => by
      refine Reads.peek fun t rest hs => ?_
      split
      · next ht =>
          refine Reads.advance_of hs (by simp [ht]) fun s' _ => ?_
          refine Reads.expect (by decide) fun name s'' _ => ?_
          exact Reads.last (targetsFrom_reads fuel _ s'') fun _ _ _ => trivial
      · exact Reads.pure trivial

theorem loopHeader_reads (s : State) : Reads [] s loopHeader fun r us => Spells us r.2 := by
  refine Reads.advance fun word s' => ?_
  refine Reads.expect (by decide) fun first s'' _ => Reads.get ?_
  refine Reads.bind (targetsFrom_reads _ _ s'') fun targets us s3 _ => ?_
  refine Reads.expectKeyword fun isIn s4 _ => ?_
  refine Reads.bind (expression_reads s4) fun e vs s5 he => ?_
  exact Reads.expect (by decide) fun close s6 _ => Reads.pure ⟨vs, by grind, he⟩

theorem parameterDefault_reads (s : State) :
    Reads [] s parameterDefault fun o us => ∀ e, o = some e → Spells us e := by
  refine Reads.peek fun t rest hs => ?_
  split
  · next ht =>
      refine Reads.advance_of hs (by simp [ht]) fun s' _ => Reads.peek fun next _ _ => ?_
      split
      · refine Reads.bind (expression_reads s') fun e us s'' he => Reads.pure ?_
        rintro _ ⟨⟩
        exact ⟨us, by simp, he⟩
      · exact Reads.complain
  · exact Reads.pure nofun

theorem parametersBehind_reads {unit name : String} {fuel : Nat}
    (ih : ∀ ps ts s, SpellsParameters ts ps →
      Reads ts s (parametersFrom unit name fuel ps) fun ps us => SpellsParameters us ps)
    {ps : List (Parameter Expr)} {ts : List Token} {s : State} (hps : SpellsParameters ts ps) :
    Reads ts s (parametersBehind unit name fuel ps) fun ps us => SpellsParameters us ps := by
  refine Reads.peek fun sep rest hs => ?_
  split
  · next hsep =>
      refine Reads.advance_of hs (by simp [hsep]) fun s' _ => ?_
      exact ih ps _ s' (hps.mono (by simp))
  · next hsep =>
      exact Reads.advance_of hs (by simp [hsep]) fun s' _ => Reads.pure (hps.mono (by simp))
  · exact Reads.complain

theorem parametersFrom_reads (unit name : String) (fuel : Nat) (ps : List (Parameter Expr))
    (ts : List Token) (s : State) (hps : SpellsParameters ts ps) :
    Reads ts s (parametersFrom unit name fuel ps) fun ps us => SpellsParameters us ps := by
  induction fuel generalizing ps ts s with
  | zero => exact Reads.throw
  | succ fuel ih =>
      rw [parametersFrom_succ]
      refine Reads.peek fun t rest hs => ?_
      split
      · next ht =>
          exact Reads.advance_of hs (by simp [ht]) fun s' _ => Reads.pure (hps.mono (by simp))
      · next ht =>
          refine Reads.advance_of hs (by simp [ht]) fun s' _ => ?_
          refine Reads.bind (parameterDefault_reads s') fun default us s'' hd => ?_
          split
          · exact Reads.note fun s3 => parametersBehind_reads ih (hps.mono (by simp))
          · next hnew =>
              refine Reads.spanFrom fun span s3 => parametersBehind_reads ih ?_
              exact .more hps (by simpa using hnew) hd (by simp)
      · exact Reads.complain

theorem definitionHeader_reads (setting : Setting) (s : State) :
    Reads [] s (definitionHeader setting) fun r us => SpellsSignature us r.1 r.2 := by
  refine Reads.advance fun word s' => ?_
  refine Reads.expect (by decide) fun name s'' hname => ?_
  refine Reads.expect (by decide) fun opening s3 _ => Reads.get ?_
  refine Reads.bind (parametersFrom_reads _ _ _ [] [] s3 .none) fun ps us s4 hps => ?_
  exact Reads.expect (by decide) fun close s5 _ => Reads.pure (.signature hname hps (by grind))

theorem callHeader_reads (s : State) : Reads [] s callHeader fun c us => SpellsCall us c := by
  refine Reads.advance fun word s' => ?_
  refine Reads.expect (by decide) fun name s'' hname => ?_
  refine Reads.expect (by decide) fun opening s3 _ => ?_
  refine Reads.bind (arguments_reads s3) fun args us s4 ⟨vs, hus, _, ha⟩ => ?_
  refine Reads.join fun argsSpan hargs => Reads.join fun span hspan => ?_
  refine Reads.expect (by decide) fun close s5 _ => Reads.pure ?_
  exact .call hname ha hargs hspan (by grind)

theorem inclusion_reads (setting : Setting) (opening : Token) {s : State} {word : Token}
    {rest : List Token} (hs : s.unread = word :: rest) (hword : word.kind = .keyword) :
    Reads [] s (inclusion setting opening) fun n us => Composes us (.node n) := by
  refine Reads.advance_of hs (by simp [hword]) fun s' _ => ?_
  refine Reads.expect (by decide) fun path s'' _ => ?_
  refine Reads.expect_behind (by decide) fun closing s3 _ hprevious => ?_
  refine Reads.spanFrom_behind hprevious fun span hstop => Reads.pure ?_
  exact .inclusion hword hstop (by simp)

theorem assignment_reads (setting : Setting) (opening : Token) (s : State) :
    Reads [] s (assignment setting opening) fun n us => Composes us (.node n) := by
  refine Reads.advance fun word s' => ?_
  refine Reads.expect (by decide) fun name s'' _ => ?_
  refine Reads.expect (by decide) fun equals s3 _ => ?_
  refine Reads.bind (expression_reads s3) fun e us s4 he => ?_
  refine Reads.expect (by decide) fun close s5 _ => ?_
  exact Reads.spanFrom fun span s6 => Reads.pure (.assignment ⟨us, by grind, he⟩)

/-! ## Branches -/

/-- The arms read so far are composed of what was read, and the condition of the next one of what
was read behind them. Of a branch with something wrong in it no more is asked: it is left out. -/
def BranchSoFar.ComposedOf (b : BranchSoFar) (ts : List Token) : Prop :=
  b.broken = false → ∃ us vs, Composes us (.arms b.arms) ∧
    (∀ e, b.condition = some e → Spells vs e) ∧ List.Sublist (us ++ vs) ts

theorem nextArm_reads {b : BranchSoFar} {ts : List Token} (s : State)
    (hb : b.broken = false → Composes ts (.arms b.arms)) :
    Reads ts s (nextArm b) fun b us => b.ComposedOf us := by
  refine Reads.peek fun t rest hs => ?_
  split
  · exact Reads.bind Reads.recover fun _ us s' _ => Reads.pure nofun
  · split
    · next ht =>
        refine Reads.advance_of hs (by simp [Token.kind_eq_of_isKeyword ht]) fun s' _ => ?_
        have hend : Reads [] s' (recovering expectBlockEnd) fun _ _ => True :=
          Reads.imp (Reads.recovering (P := fun _ _ => True) (Reads.of_bind
            (Reads.expect (by decide) fun _ _ _ => Reads.pure trivial))) fun _ _ _ => trivial
        refine Reads.bind hend fun _ us s'' _ => Reads.pure fun hbroken => ?_
        exact ⟨ts, [], hb hbroken, nofun, by simp⟩
    · refine Reads.bind (Reads.recovering (condition_reads s)) fun header us s' he => ?_
      refine Reads.pure fun hbroken => ?_
      exact ⟨ts, us, hb (by grind), he, by simp⟩

/-! ## Soundness at one amount of fuel -/

/-- The node that is kept, if any, is composed of what was read. -/
def ComposesNode (o : Option Node) (ts : List Token) : Prop :=
  ∀ n, o = some n → Composes ts (.node n)

structure TemplatesSound (setting : Setting) (fuel : Nat) : Prop where
  nodesFrom : ∀ closers nodes ts s, Composes ts (.nodes nodes.reverse) →
    Reads ts s (nodesFrom setting closers fuel nodes) fun r us => Composes us (.nodes r.1)
  tag : ∀ s, Reads [] s (tag setting fuel) ComposesNode
  statement : ∀ opening s, Reads [] s (statement setting opening fuel) ComposesNode
  body : ∀ opening construct closers s,
    Reads [] s (body setting opening construct closers fuel) fun r us => Composes us (.nodes r.1)
  branch : ∀ opening s, Reads [] s (branch setting opening fuel) ComposesNode
  armsFrom : ∀ opening b ts s, b.ComposedOf ts →
    Reads ts s (armsFrom setting opening fuel b) ComposesNode
  loop : ∀ opening s, Reads [] s (loop setting opening fuel) ComposesNode
  definition : ∀ opening s, Reads [] s (definition setting opening fuel) ComposesNode
  callBlock : ∀ opening s, Reads [] s (callBlock setting opening fuel) ComposesNode

theorem templatesSound_zero (setting : Setting) : TemplatesSound setting 0 where
  nodesFrom closers nodes ts s _ := by
    rw [nodesFrom]
    exact Reads.throw
  tag s := by
    rw [tag]
    exact Reads.throw
  statement opening s := by
    rw [statement]
    exact Reads.throw
  body opening construct closers s := by
    rw [body]
    exact Reads.throw
  branch opening s := by
    rw [branch]
    exact Reads.throw
  armsFrom opening b ts s _ := by
    rw [armsFrom]
    exact Reads.throw
  loop opening s := by
    rw [loop]
    exact Reads.throw
  definition opening s := by
    rw [definition]
    exact Reads.throw
  callBlock opening s := by
    rw [callBlock]
    exact Reads.throw

section

variable {setting : Setting} {fuel : Nat} (ih : TemplatesSound setting fuel)

include ih

theorem nodesFrom_reads {closers : List String} {nodes : List Node} {ts : List Token} (s : State)
    (hns : Composes ts (.nodes nodes.reverse)) :
    Reads ts s (nodesFrom setting closers (fuel + 1) nodes) fun r us =>
      Composes us (.nodes r.1) := by
  rw [nodesFrom]
  refine Reads.peek fun t rest hs => ?_
  split
  · exact Reads.pure hns
  · next ht =>
      refine Reads.bind (text_reads hs ht) fun o us s' ⟨hus, ho⟩ => ?_
      subst hus
      refine ih.nodesFrom closers _ _ s' ?_
      cases o with
      | none => exact hns.mono (by simp)
      | some n =>
          obtain ⟨value, rfl⟩ := ho n rfl
          simpa using .text hns ht (List.Sublist.refl _)
  · refine Reads.bind (comment_reads s) fun _ us s' _ => ?_
    exact ih.nodesFrom closers nodes _ s' (hns.mono (by simp))
  · refine Reads.bind (closingWord?_reads closers hs) fun o us s' hus => ?_
    subst hus
    split
    · exact Reads.pure (by simpa using hns)
    · refine Reads.bind (Reads.recovering (ih.tag s')) fun o us s'' ho => ?_
      refine ih.nodesFrom closers _ _ s'' ?_
      have hkept : ComposesNode o.join us := fun n hn => ho _ (Option.join_eq_some_iff.mp hn) n rfl
      cases hn : o.join with
      | none => exact hns.mono (by simp)
      | some n => simpa using .append hns (hkept n hn) (by simp)

theorem tag_reads (s : State) : Reads [] s (tag setting (fuel + 1)) ComposesNode := by
  rw [tag]
  refine Reads.peek fun t rest hs => ?_
  split
  · refine Reads.map (output_reads setting s) fun n us hn => ?_
    rintro _ ⟨⟩
    exact hn
  · next ht =>
      refine Reads.advance_of hs (by simp [ht]) fun s' _ => ?_
      refine Reads.last (ih.statement t s') fun o us ho n hn => (ho n hn).mono (by simp)
  · exact Reads.advance fun _ _ => Reads.complain

theorem statement_reads (opening : Token) (s : State) :
    Reads [] s (statement setting opening (fuel + 1)) ComposesNode := by
  rw [statement]
  refine Reads.peek fun t rest hs => ?_
  have hsome : ∀ {p : Parser Node}, (Reads [] s p fun n us => Composes us (.node n)) →
      Reads [] s (some <$> p) ComposesNode := fun hp => by
    refine Reads.map hp fun n us hn => ?_
    rintro _ ⟨⟩
    exact hn
  split
  · next hword =>
    split
    · exact ih.branch opening s
    · exact ih.loop opening s
    · exact ih.definition opening s
    · exact ih.callBlock opening s
    · exact hsome (inclusion_reads setting opening hs hword)
    · exact hsome (assignment_reads setting opening s)
    · exact hsome (assignment_reads setting opening s)
    · split <;> exact Reads.complain
  · exact Reads.complain
  · exact Reads.complain

theorem body_reads (opening : Token) (construct : String) (closers : List String) (s : State) :
    Reads [] s (body setting opening construct closers (fuel + 1)) fun r us =>
      Composes us (.nodes r.1) := by
  rw [body]
  refine Reads.bind (ih.nodesFrom closers [] [] s .empty) fun r us s' hns => ?_
  obtain ⟨nodes, word⟩ := r
  cases word with
  | none => exact Reads.complain
  | some word => exact Reads.pure hns

theorem branch_reads (opening : Token) (s : State) :
    Reads [] s (branch setting opening (fuel + 1)) ComposesNode := by
  rw [branch]
  refine Reads.bind (Reads.recovering (condition_reads s)) fun header us s' hc => ?_
  exact ih.armsFrom opening _ us s' fun _ => ⟨[], us, .noArms, hc, by simp⟩

theorem armsFrom_reads {opening : Token} {b : BranchSoFar} {ts : List Token} (s : State)
    (hb : b.ComposedOf ts) :
    Reads ts s (armsFrom setting opening (fuel + 1) b) ComposesNode := by
  rw [armsFrom]
  refine Reads.bind (ih.body opening "if" _ s) fun r us s' hns => ?_
  refine Reads.spanFrom fun armSpan s'' => ?_
  have harms : b.broken = false →
      Composes (ts ++ us) (.arms (b.arms ++ [⟨b.condition, r.1, armSpan⟩])) := by
    intro hbroken
    obtain ⟨vs, ws, ha, hc, hsub⟩ := hb hbroken
    exact .arm ha hc hns (by grind)
  split
  · refine Reads.bind (endTag_reads "endif" s'') fun _ vs s3 _ => ?_
    split
    · exact Reads.pure nofun
    · next hbroken =>
        refine Reads.spanFrom fun span s4 => Reads.pure ?_
        rintro _ ⟨⟩
        exact .branch ((harms (by simpa using hbroken)).mono (by simp))
  · refine Reads.advance fun t s3 => ?_
    refine Reads.seq (nextArm_reads s3 fun hbroken => (harms hbroken).mono (by simp)) ?_
    exact fun b us s4 hb => ih.armsFrom opening b us s4 hb

omit ih in
/-- The end of a loop, behind what its header and its bodies were read from. -/
theorem loopEnd_reads {opening : Token} {header : Option (List String × Expr)}
    {nodes otherwise : List Node} {ts us vs ws : List Token} {s : State}
    (he : ∀ r, header = some r → Spells us r.2) (hb : Composes vs (.nodes nodes))
    (ho : Composes ws (.nodes otherwise)) (hsub : List.Sublist (us ++ vs ++ ws) ts) :
    Reads ts s (loopEnd setting opening header nodes otherwise) ComposesNode := by
  refine Reads.bind (endTag_reads "endfor" s) fun _ xs s' _ => ?_
  split
  · refine Reads.pure ?_
    rintro _ ⟨⟩
  · refine Reads.spanFrom fun span s'' => Reads.pure ?_
    rintro _ ⟨⟩
    exact .loop (he _ rfl) hb ho (by grind)

theorem loop_reads (opening : Token) (s : State) :
    Reads [] s (loop setting opening (fuel + 1)) ComposesNode := by
  rw [loop_succ]
  refine Reads.bind (Reads.recovering (loopHeader_reads s)) fun header us s' he => ?_
  refine Reads.bind (ih.body opening "for" _ s') fun r vs s'' hb => ?_
  dsimp only
  split
  · refine Reads.bind (endTag_reads "else" s'') fun _ ws s3 _ => ?_
    refine Reads.bind (ih.body opening "for" _ s3) fun o xs s4 ho => ?_
    exact loopEnd_reads he hb ho (by simp)
  · have hnone : Composes [] (.nodes []) := .empty
    exact loopEnd_reads he hb hnone (by simp)

theorem definition_reads (opening : Token) (s : State) :
    Reads [] s (definition setting opening (fuel + 1)) ComposesNode := by
  rw [definition]
  refine Reads.bind (Reads.recovering (definitionHeader_reads setting s)) fun header us s' hp => ?_
  refine Reads.bind (ih.body opening "macro" _ s') fun r vs s'' hb => ?_
  refine Reads.bind (endTag_reads "endmacro" s'') fun _ ws s3 _ => ?_
  cases header with
  | none => exact Reads.pure nofun
  | some h =>
      refine Reads.spanFrom fun span s4 => Reads.pure ?_
      rintro _ ⟨⟩
      exact .definition (hp h rfl) hb (by simp)

theorem callBlock_reads (opening : Token) (s : State) :
    Reads [] s (callBlock setting opening (fuel + 1)) ComposesNode := by
  rw [callBlock]
  refine Reads.bind (Reads.recovering (callHeader_reads s)) fun header us s' hc => ?_
  refine Reads.bind (ih.body opening "call" _ s') fun r vs s'' hb => ?_
  refine Reads.bind (endTag_reads "endcall" s'') fun _ ws s3 _ => ?_
  cases header with
  | none => exact Reads.pure nofun
  | some call =>
      refine Reads.spanFrom fun span s4 => Reads.pure ?_
      rintro _ ⟨⟩
      exact .callBlock (hc call rfl) hb (by simp)

end

/-! ## Soundness -/

theorem templatesSound (setting : Setting) : ∀ fuel, TemplatesSound setting fuel
  | 0 => templatesSound_zero setting
  | fuel + 1 =>
      have ih := templatesSound setting fuel
      { nodesFrom := fun _ _ _ s hns => nodesFrom_reads ih s hns
        tag := tag_reads ih
        statement := statement_reads ih
        body := body_reads ih
        branch := branch_reads ih
        armsFrom := fun _ _ _ s hb => armsFrom_reads ih s hb
        loop := loop_reads ih
        definition := definition_reads ih
        callBlock := callBlock_reads ih }

theorem templateBody_reads (setting : Setting) (s : State) :
    Reads [] s (templateBody setting) fun ns us => Composes us (.nodes ns) := by
  have h := (templatesSound setting (templateFuel s.unread.length)).nodesFrom [] [] [] s .empty
  unfold Reads Ends at h ⊢
  unfold templateBody
  cases hr : nodesFrom setting [] (templateFuel s.unread.length) [] s with
  | ok r s' => simpa only [hr] using h
  | error stop s' =>
      obtain ⟨us, hu⟩ : ∃ us, s.unread = us ++ s'.unread := by simpa only [hr] using h
      cases stop with
      | lexical fault => exact ⟨us, hu, .empty⟩
      | _ => exact ⟨us, hu⟩

theorem template_reads (setting : Setting) (s : State) :
    Reads [] s (template setting) fun t us => Composes us (.nodes t.body) :=
  Reads.bind (templateBody_reads setting s) fun _ _ _ hns => Reads.spanFrom fun _ _ =>
    Reads.pure hns

end TemplateCompiler.Parser

namespace TemplateCompiler

/-- The nodes of a template are composed of the tokens of its source. -/
theorem parseTokens_composes {setting : Parser.Setting} {tokens : List Token}
    {fault : Option LexicalFault} {parsed : Parsed}
    (h : parseTokens setting tokens fault = .ok parsed) :
    Composes tokens (.nodes parsed.template.body) := by
  unfold parseTokens at h
  split at h
  · next t s' ht =>
      obtain ⟨us, hu, hc⟩ := (Parser.template_reads setting _).of_ok ht
      obtain rfl := Except.ok.inj h
      exact hc.mono (by grind)
  · cases h

end TemplateCompiler
