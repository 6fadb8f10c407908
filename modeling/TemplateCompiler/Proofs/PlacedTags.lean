import TemplateCompiler.Proofs.GeneratedIncludes
import TemplateCompiler.Proofs.PlacedCalls
import TemplateCompiler.Proofs.Requests

/-!
# Where include tags are

An include tag goes from the start of its opening delimiter to the end of its closing one, so both
its ends are true positions of the source. That nodes are composed of tokens says nothing of this
start, since the delimiter is read before it is known which statement it opens. Here it is handed
to the statement: `Reads [opening] s` is a run behind it.
-/

namespace TemplateCompiler

open Template (Node walkAll walkArms)

/-! ## Spans between tokens -/

/-- Every include tag among the nodes goes from the start of one of the tokens to the end of
another. -/
def TagsSpan (unit : String) (ts : List Token) (ns : List Node) : Prop :=
  ∀ path span, .inclusion path span ∈ ns → ∃ opening ∈ ts, ∃ closing ∈ ts,
    Span.between opening.span.start closing.span.stop unit = .ok span

namespace TagsSpan

variable {unit : String} {ts us : List Token} {n : Node} {ns ms : List Node}

theorem nil : TagsSpan unit ts [] := by
  intro path span hmem
  cases hmem

theorem mono (h : TagsSpan unit ts ns) (hs : ts ⊆ us) : TagsSpan unit us ns := by
  intro path span hmem
  obtain ⟨opening, hopening, closing, hclosing, hspan⟩ := h path span hmem
  exact ⟨opening, hs hopening, closing, hs hclosing, hspan⟩

theorem append (h : TagsSpan unit ts ns) (h' : TagsSpan unit ts ms) : TagsSpan unit ts (ns ++ ms) :=
  fun path span hmem => (List.mem_append.mp hmem).elim (h path span) (h' path span)

/-- In front of a node that is no include tag. -/
theorem cons (h : TagsSpan unit ts ns) (hn : n.inclusion? = none) : TagsSpan unit ts (n :: ns) := by
  intro path span hmem
  rcases List.mem_cons.mp hmem with rfl | hmem
  · cases hn
  · exact h path span hmem

theorem walkAll_concat (h : TagsSpan unit ts (walkAll ns)) (hn : TagsSpan unit ts n.walk) :
    TagsSpan unit ts (walkAll (ns ++ [n])) := by
  rw [Template.walkAll_append, walkAll, walkAll, List.append_nil]
  exact h.append hn

theorem walkArms_concat {arms : List (Arm Node)} {a : Arm Node}
    (h : TagsSpan unit ts (walkArms arms)) (ha : TagsSpan unit ts (walkAll a.body)) :
    TagsSpan unit ts (walkArms (arms ++ [a])) := by
  rw [Template.walkArms_append, walkArms, walkArms, List.append_nil]
  exact h.append ha

end TagsSpan

namespace Parser

/-! ## Tags and headers -/

/-- The include tags in the node that is kept, if any, go from token to token. -/
def NodeSpans (unit : String) (o : Option Node) (ts : List Token) : Prop :=
  ∀ n, o = some n → TagsSpan unit ts n.walk

theorem NodeSpans.none {unit : String} {ts : List Token} : NodeSpans unit none ts := by
  rintro _ ⟨⟩

theorem NodeSpans.some {unit : String} {n : Node} {ts : List Token} (h : TagsSpan unit ts n.walk) :
    NodeSpans unit (some n) ts := by
  rintro _ ⟨⟩
  exact h

/-- What holds of the tokens that are read holds of these and of those before them. -/
theorem Reads.nodeSpans {unit : String} {ts : List Token} {s : State} {p : Parser (Option Node)}
    (h : Reads [] s p (NodeSpans unit)) : Reads ts s p (NodeSpans unit) :=
  h.last fun _ _ ho n hn => (ho n hn).mono (by simp)

theorem output_spans (setting : Setting) (s : State) :
    Reads [] s (output setting) fun n us => TagsSpan setting.unit us n.walk := by
  refine Reads.advance fun opening s₁ => ?_
  refine Reads.bind (expression_reads s₁) fun e us s₂ _ => ?_
  refine Reads.expect (by decide) fun close s₃ _ => ?_
  exact Reads.spanFrom fun span s₄ => Reads.pure (TagsSpan.nil.cons rfl)

theorem assignment_spans (setting : Setting) (opening : Token) (ts : List Token) (s : State) :
    Reads ts s (assignment setting opening) fun n us => TagsSpan setting.unit us n.walk := by
  refine Reads.advance fun word s₁ => ?_
  refine Reads.expect (by decide) fun name s₂ _ => ?_
  refine Reads.expect (by decide) fun equals s₃ _ => ?_
  refine Reads.bind (expression_reads s₃) fun e us s₄ _ => ?_
  refine Reads.expect (by decide) fun close s₅ _ => ?_
  exact Reads.spanFrom fun span s₆ => Reads.pure (TagsSpan.nil.cons rfl)

theorem inclusion_spans (setting : Setting) (opening : Token) (s : State) :
    Reads [opening] s (inclusion setting opening) fun n us => TagsSpan setting.unit us n.walk := by
  refine Reads.advance fun word s₁ => ?_
  refine Reads.expect (by decide) fun path s₂ _ => ?_
  refine Reads.expect_behind (by decide) fun closing s₃ _ hprevious => ?_
  refine Reads.spanFrom_between hprevious fun span hspan => Reads.pure ?_
  intro path' span' hmem
  rw [Node.walk, List.mem_singleton] at hmem
  obtain ⟨-, rfl⟩ := Node.inclusion.inj hmem
  exact ⟨opening, by simp, closing, by simp, hspan⟩

/-- Whatever the next arm is, those before it stay. -/
theorem nextArm_arms (b : BranchSoFar) (s : State) :
    Reads [] s (nextArm b) fun b' _ => b'.arms = b.arms := by
  refine Reads.peek fun t rest hs => ?_
  split
  · exact Reads.bind Reads.recover fun _ _ _ _ => Reads.pure rfl
  · split
    · refine Reads.advance fun _ s' => ?_
      have hend : Reads [] s' (recovering expectBlockEnd) fun _ _ => True :=
        (Reads.recovering (P := fun _ _ => True) (Reads.of_bind
          (Reads.expect (by decide) fun _ _ _ => Reads.pure trivial))).imp fun _ _ _ => trivial
      exact Reads.bind hend fun _ _ _ _ => Reads.pure rfl
    · exact Reads.bind (Reads.recovering (condition_reads s)) fun _ _ _ _ => Reads.pure rfl

/-! ## Tags at one amount of fuel -/

structure TagsRead (setting : Setting) (fuel : Nat) : Prop where
  nodesFrom : ∀ closers nodes ts s, TagsSpan setting.unit ts (walkAll nodes.reverse) →
    Reads ts s (nodesFrom setting closers fuel nodes) fun r us =>
      TagsSpan setting.unit us (walkAll r.1)
  tag : ∀ s, Reads [] s (tag setting fuel) (NodeSpans setting.unit)
  statement : ∀ opening s,
    Reads [opening] s (statement setting opening fuel) (NodeSpans setting.unit)
  body : ∀ opening construct closers s,
    Reads [] s (body setting opening construct closers fuel) fun r us =>
      TagsSpan setting.unit us (walkAll r.1)
  branch : ∀ opening s, Reads [] s (branch setting opening fuel) (NodeSpans setting.unit)
  armsFrom : ∀ opening b ts s, TagsSpan setting.unit ts (walkArms b.arms) →
    Reads ts s (armsFrom setting opening fuel b) (NodeSpans setting.unit)
  loop : ∀ opening s, Reads [] s (loop setting opening fuel) (NodeSpans setting.unit)
  definition : ∀ opening s, Reads [] s (definition setting opening fuel) (NodeSpans setting.unit)
  callBlock : ∀ opening s, Reads [] s (callBlock setting opening fuel) (NodeSpans setting.unit)

theorem tagsRead_zero (setting : Setting) : TagsRead setting 0 where
  nodesFrom closers nodes ts s _ := by
    rw [nodesFrom]
    exact Reads.throw
  tag s := by
    rw [tag]
    exact Reads.throw
  statement opening s := by
    rw [statement]
    exact Reads.throw
  body opening construct closers s := by
    rw [body]
    exact Reads.throw
  branch opening s := by
    rw [branch]
    exact Reads.throw
  armsFrom opening b ts s _ := by
    rw [armsFrom]
    exact Reads.throw
  loop opening s := by
    rw [loop]
    exact Reads.throw
  definition opening s := by
    rw [definition]
    exact Reads.throw
  callBlock opening s := by
    rw [callBlock]
    exact Reads.throw

section

variable {setting : Setting} {fuel : Nat} (ih : TagsRead setting fuel)

include ih

theorem nodesFrom_spans (closers : List String) {nodes : List Node} {ts : List Token} (s : State)
    (hns : TagsSpan setting.unit ts (walkAll nodes.reverse)) :
    Reads ts s (nodesFrom setting closers (fuel + 1) nodes) fun r us =>
      TagsSpan setting.unit us (walkAll r.1) := by
  rw [nodesFrom]
  refine Reads.peek fun t rest hs => ?_
  split
  · exact Reads.pure hns
  · next ht =>
      refine Reads.bind (text_reads hs ht) fun o us s' htext => ?_
      refine ih.nodesFrom closers _ _ s' ?_
      cases o with
      | none => exact hns.mono (by simp)
      | some n =>
          obtain ⟨value, rfl⟩ := htext.2 n rfl
          rw [Option.toList_some, List.singleton_append, List.reverse_cons]
          exact (hns.mono (by simp)).walkAll_concat (TagsSpan.nil.cons rfl)
  · refine Reads.bind (comment_reads s) fun _ us s' _ => ?_
    exact ih.nodesFrom closers nodes _ s' (hns.mono (by simp))
  · refine Reads.bind (closingWord?_reads closers hs) fun word us s' _ => ?_
    split
    · exact Reads.pure (hns.mono (by simp))
    · refine Reads.bind (Reads.recovering (ih.tag s')) fun o vs s'' ho => ?_
      refine ih.nodesFrom closers _ _ s'' ?_
      cases hkept : o.join with
      | none => exact hns.mono (by simp)
      | some n =>
          have hn := ho _ (Option.join_eq_some_iff.mp hkept) n rfl
          rw [Option.toList_some, List.singleton_append, List.reverse_cons]
          exact (hns.mono (by simp)).walkAll_concat (hn.mono (by simp))

theorem tag_spans (s : State) : Reads [] s (tag setting (fuel + 1)) (NodeSpans setting.unit) := by
  rw [tag]
  refine Reads.peek fun t rest hs => ?_
  split
  · exact Reads.map (output_spans setting s) fun n us hn => .some hn
  · next ht => exact Reads.advance_of hs (by simp [ht]) fun s' _ => ih.statement t s'
  · exact Reads.advance fun _ _ => Reads.complain

theorem statement_spans (opening : Token) (s : State) :
    Reads [opening] s (statement setting opening (fuel + 1)) (NodeSpans setting.unit) := by
  rw [statement]
  have hsome : ∀ {p : Parser Node},
      (Reads [opening] s p fun n us => TagsSpan setting.unit us n.walk) →
        Reads [opening] s (some <$> p) (NodeSpans setting.unit) :=
    fun hp => Reads.seq hp fun n us s' hn => Reads.pure (.some hn)
  refine Reads.peek fun t rest hs => ?_
  split
  · split
    · exact (ih.branch opening s).nodeSpans
    · exact (ih.loop opening s).nodeSpans
    · exact (ih.definition opening s).nodeSpans
    · exact (ih.callBlock opening s).nodeSpans
    · exact hsome (inclusion_spans setting opening s)
    · exact hsome (assignment_spans setting opening [opening] s)
    · exact hsome (assignment_spans setting opening [opening] s)
    · split <;> exact Reads.complain
  · exact Reads.complain
  · exact Reads.complain

theorem body_spans (opening : Token) (construct : String) (closers : List String) (s : State) :
    Reads [] s (body setting opening construct closers (fuel + 1)) fun r us =>
      TagsSpan setting.unit us (walkAll r.1) := by
  rw [body]
  refine Reads.bind (ih.nodesFrom closers [] [] s .nil) fun r us s' hns => ?_
  obtain ⟨nodes, word⟩ := r
  cases word with
  | none => exact Reads.complain
  | some word => exact Reads.pure hns

theorem branch_spans (opening : Token) (s : State) :
    Reads [] s (branch setting opening (fuel + 1)) (NodeSpans setting.unit) := by
  rw [branch]
  refine Reads.bind (Reads.recovering (condition_reads s)) fun header us s' _ => ?_
  exact ih.armsFrom opening _ us s' .nil

theorem armsFrom_spans (opening : Token) {b : BranchSoFar} {ts : List Token} (s : State)
    (hb : TagsSpan setting.unit ts (walkArms b.arms)) :
    Reads ts s (armsFrom setting opening (fuel + 1) b) (NodeSpans setting.unit) := by
  rw [armsFrom]
  refine Reads.bind (ih.body opening "if" _ s) fun r us s' hns => ?_
  refine Reads.spanFrom fun armSpan s₁ => ?_
  have harms : TagsSpan setting.unit (ts ++ us)
      (walkArms (b.arms ++ [⟨b.condition, r.1, armSpan⟩])) :=
    (hb.mono (by simp)).walkArms_concat (hns.mono (by simp))
  split
  · refine Reads.bind (endTag_reads "endif" s₁) fun _ vs s₂ _ => ?_
    split
    · exact Reads.pure .none
    · exact Reads.spanFrom fun span s₃ => Reads.pure (.some ((harms.mono (by simp)).cons rfl))
  · refine Reads.advance fun t s₂ => ?_
    refine Reads.bind (nextArm_arms _ s₂) fun b' vs s₃ hb' => ?_
    refine ih.armsFrom opening b' _ s₃ ?_
    rw [hb']
    exact harms.mono (by simp)

omit ih in
theorem loopEnd_spans (opening : Token) (header : Option (List String × Template.Expr))
    {nodes otherwise : List Node} {ts : List Token} (s : State)
    (hb : TagsSpan setting.unit ts (walkAll nodes))
    (ho : TagsSpan setting.unit ts (walkAll otherwise)) :
    Reads ts s (loopEnd setting opening header nodes otherwise) (NodeSpans setting.unit) := by
  refine Reads.bind (endTag_reads "endfor" s) fun _ us s' _ => ?_
  split
  · exact Reads.pure .none
  · refine Reads.spanFrom fun span s'' => Reads.pure (.some ?_)
    exact ((hb.append ho).mono (by simp)).cons rfl

theorem loop_spans (opening : Token) (s : State) :
    Reads [] s (loop setting opening (fuel + 1)) (NodeSpans setting.unit) := by
  rw [loop_succ]
  refine Reads.bind (Reads.recovering (loopHeader_reads s)) fun header us s₁ _ => ?_
  refine Reads.bind (ih.body opening "for" _ s₁) fun r vs s₂ hb => ?_
  dsimp only
  split
  · refine Reads.bind (endTag_reads "else" s₂) fun _ ws s₃ _ => ?_
    refine Reads.bind (ih.body opening "for" _ s₃) fun o xs s₄ ho => ?_
    refine loopEnd_spans opening header s₄ (hb.mono (by simp)) (ho.mono ?_)
    exact List.subset_append_right _ xs
  · exact loopEnd_spans opening header s₂ (hb.mono (by simp)) .nil

theorem definition_spans (opening : Token) (s : State) :
    Reads [] s (definition setting opening (fuel + 1)) (NodeSpans setting.unit) := by
  rw [definition]
  refine Reads.bind (Reads.recovering (definitionHeader_reads setting s)) fun header us s₁ _ => ?_
  refine Reads.bind (ih.body opening "macro" _ s₁) fun r vs s₂ hb => ?_
  refine Reads.bind (endTag_reads "endmacro" s₂) fun _ ws s₃ _ => ?_
  cases header with
  | none => exact Reads.pure .none
  | some h =>
      exact Reads.spanFrom fun span s₄ => Reads.pure (.some ((hb.mono (by simp)).cons rfl))

theorem callBlock_spans (opening : Token) (s : State) :
    Reads [] s (callBlock setting opening (fuel + 1)) (NodeSpans setting.unit) := by
  rw [callBlock]
  refine Reads.bind (Reads.recovering (callHeader_reads s)) fun header us s₁ _ => ?_
  refine Reads.bind (ih.body opening "call" _ s₁) fun r vs s₂ hb => ?_
  refine Reads.bind (endTag_reads "endcall" s₂) fun _ ws s₃ _ => ?_
  cases header with
  | none => exact Reads.pure .none
  | some call =>
      exact Reads.spanFrom fun span s₄ => Reads.pure (.some ((hb.mono (by simp)).cons rfl))

end

/-! ## Tags of a source -/

theorem tagsRead (setting : Setting) : ∀ fuel, TagsRead setting fuel
  | 0 => tagsRead_zero setting
  | fuel + 1 =>
      have ih := tagsRead setting fuel
      { nodesFrom := fun closers _ _ s hns => nodesFrom_spans ih closers s hns
        tag := tag_spans ih
        statement := statement_spans ih
        body := body_spans ih
        branch := branch_spans ih
        armsFrom := fun opening _ _ s hb => armsFrom_spans ih opening s hb
        loop := loop_spans ih
        definition := definition_spans ih
        callBlock := callBlock_spans ih }

theorem templateBody_spans (setting : Setting) (s : State) :
    Ends (templateBody setting) s
      (fun nodes _ => TagsSpan setting.unit s.unread (walkAll nodes)) fun _ _ => True := by
  refine templateBody_ends_of (Ends.imp ((tagsRead setting _).nodesFrom [] [] [] s .nil) ?_ ?_)
  · rintro r s' ⟨us, hus, hnodes⟩ -
    exact hnodes.mono (by simp [hus])
  · exact fun _ _ _ _ _ => .nil

end Parser

variable {setting : Parser.Setting} {delimiters : Delimiters} {source : String} {parsed : Parsed}

theorem parse_tagsSpan (h : parse setting delimiters source = .ok parsed) :
    TagsSpan setting.unit (tokenize source setting.unit delimiters).1
      (walkAll parsed.template.body) := by
  obtain ⟨s', hrun, -⟩ := Parser.template_of_parse h
  exact (Parser.templateBody_spans setting _).of_ok (Parser.templateBody_of_template hrun)

/-- Include tags lie in the source. -/
theorem includeTags_placedIn (hd : delimiters.check = .ok ())
    (h : parse setting delimiters source = .ok parsed) {tag : String × Span}
    (htag : tag ∈ Compiler.includeTags parsed.template) :
    tag.2.PlacedIn source.toList setting.unit := by
  obtain ⟨opening, hopening, closing, hclosing, hspan⟩ :=
    parse_tagsSpan h tag.1 tag.2 (Compiler.mem_includeTags.mp htag)
  obtain ⟨htokens, -⟩ := tokenize_placedIn hd source setting.unit
  have hstart := htokens opening hopening
  refine hstart.upTo (htokens closing hclosing) ?_
  rw [Span.upTo, hstart.unit, hspan]

end TemplateCompiler
