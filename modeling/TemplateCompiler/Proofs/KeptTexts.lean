import TemplateCompiler.Proofs.Gathering
import TemplateCompiler.Proofs.ParseTotal
import TemplateCompiler.Proofs.Places

/-!
# Every text is kept once

A source that is parsed without complaints keeps its texts: the text nodes of the tree are the text
tokens of the source, in the same order, and each is trimmed by the markers of the two tokens beside
it, `parse_texts`. Nothing that stands further off matters, however deep in blocks the text lies.

The parser remembers the marker of the last closing delimiter, wherever it was read, so what it
makes of a text depends on all that was read before. That this is the delimiter directly in front of
the text is a fact about the tokens of a source (`Token.Borders`): a text has a closing delimiter or
nothing in front of it, and an opening one or the end behind it.
-/

namespace TemplateCompiler

namespace Template

def Node.isText : Node → Bool
  | .text _ _ => true
  | _ => false

/-- The text nodes of a list of nodes, at any depth, in source order. -/
def texts (ns : List Node) : List Node :=
  (walkAll ns).filter Node.isText

def armTexts (arms : List (Arm Node)) : List Node :=
  (walkArms arms).filter Node.isText

@[simp]
theorem texts_nil : texts [] = [] := rfl

@[simp]
theorem texts_append (ns ms : List Node) : texts (ns ++ ms) = texts ns ++ texts ms := by
  simp [texts, walkAll_append]

theorem armTexts_append (as bs : List (Arm Node)) :
    armTexts (as ++ bs) = armTexts as ++ armTexts bs := by
  simp [armTexts, walkArms_append]

@[simp]
theorem texts_text (value : String) (span : Span) :
    texts [.text value span] = [.text value span] := rfl

@[simp]
theorem texts_branch (arms : List (Arm Node)) (span : Span) :
    texts [.branch arms span] = armTexts arms := by
  simp [texts, walkAll, Node.walk, Node.isText, armTexts]

@[simp]
theorem texts_loop (targets : List String) (iterable : Expr) (body otherwise : List Node)
    (span : Span) : texts [.loop targets iterable body otherwise span] =
      texts body ++ texts otherwise := by
  simp [texts, walkAll, Node.walk, Node.isText]

@[simp]
theorem texts_definition (d : MacroDef) : texts [.definition d] = texts d.body := by
  simp [texts, walkAll, Node.walk, Node.isText]

@[simp]
theorem texts_callBlock (call : MacroCall) (body : List Node) (span : Span) :
    texts [.callBlock call body span] = texts body := by
  simp [texts, walkAll, Node.walk, Node.isText]

@[simp]
theorem texts_output (e : Expr) (span : Span) : texts [.output e span] = [] := rfl

@[simp]
theorem texts_inclusion (path : String) (span : Span) : texts [.inclusion path span] = [] := rfl

@[simp]
theorem texts_assignment (name : String) (value : Expr) (span : Span) :
    texts [.assignment name value span] = [] := rfl

end Template

namespace Parser

open Template (Node texts armTexts)

variable {α β : Type}

/-! ## Templates at one amount of fuel -/

theorem closingWord?_passes (setting : Setting) (closers : List String) {s : State} {t : Token}
    {rest : List Token} (hs : s.unread = t :: rest) :
    Passes setting s (closingWord? closers t) := by
  unfold closingWord?
  split
  · next ht => exact Gathers.peekSecond hs (by simp [ht]) fun _ _ _ => Gathers.pure rfl
  · exact Gathers.pure rfl

/-- A text is trimmed by the markers that its state and the next token give. -/
theorem text_gathers {setting : Setting} {s : State} {t : Token} {rest : List Token}
    (hs : s.unread = t :: rest) (ht : t.kind = .text) :
    Gathers setting s (text setting) fun o ns => texts o.toList = ns := by
  have hleft : (s.consume t rest).leftMarker = s.leftMarker := by
    rw [State.consume, ht]
    rfl
  have htexts : ∀ left right, texts (setting.textNode left right t).toList =
      (setting.textNode left right t).toList := by
    intro left right
    unfold Setting.textNode
    dsimp only
    split <;> rfl
  refine Ends.step (advance_eq hs (by simp [ht])) ?_
  cases rest with
  | nil => exact id
  | cons u more =>
      refine Ends.step (peek_eq rfl) (Ends.step rfl (Ends.step rfl (Ends.pure fun hnone => ?_)))
      refine ⟨hnone, _, ?_, rfl⟩
      rw [hleft, State.pending, hs, setting.textsFrom_text ht, ← htexts]
      rfl

section

variable {setting : Setting} {s : State} {t : Token} {rest : List Token}
  (hs : s.unread = t :: rest) (ht : t.kind ≠ .text)

include hs ht

theorem output_gathers : Gathers setting s (output setting) fun n ns => texts [n] = ns := by
  refine Gathers.advance hs ht fun s₁ _ => Gathers.pass (expression_passes s₁) fun e s₂ => ?_
  exact Gathers.expect (by decide) fun _ s₃ => Gathers.spanFrom fun _ => Gathers.pure rfl

theorem inclusion_gathers (opening : Token) :
    Gathers setting s (inclusion setting opening) fun n ns => texts [n] = ns := by
  refine Gathers.advance hs ht fun s₁ _ => Gathers.expect (by decide) fun path s₂ => ?_
  exact Gathers.pass (expectBlockEnd_passes s₂) fun _ _ =>
    Gathers.spanFrom fun _ => Gathers.pure rfl

theorem assignment_gathers (opening : Token) :
    Gathers setting s (assignment setting opening) fun n ns => texts [n] = ns := by
  refine Gathers.advance hs ht fun s₁ _ => Gathers.expect (by decide) fun name s₂ => ?_
  refine Gathers.expect (by decide) fun equals s₃ => ?_
  refine Gathers.pass (expression_passes s₃) fun value s₄ => ?_
  exact Gathers.pass (expectBlockEnd_passes s₄) fun _ _ =>
    Gathers.spanFrom fun _ => Gathers.pure rfl

end

/-- What is kept of the nodes of a block holds the text nodes that were taken off. -/
structure TemplatesGather (setting : Setting) (fuel : Nat) : Prop where
  nodesFrom : ∀ closers nodes s, Gathers setting s (nodesFrom setting closers fuel nodes)
    fun r ns => texts r.1 = texts nodes.reverse ++ ns
  tag : ∀ s t rest, s.unread = t :: rest → t.kind ≠ .text →
    Gathers setting s (tag setting fuel) fun o ns => texts o.toList = ns
  statement : ∀ opening s, Gathers setting s (statement setting opening fuel)
    fun o ns => texts o.toList = ns
  body : ∀ opening construct closers s,
    Gathers setting s (body setting opening construct closers fuel) fun r ns => texts r.1 = ns
  branch : ∀ opening s t rest, s.unread = t :: rest → t.kind = .keyword →
    Gathers setting s (branch setting opening fuel) fun o ns => texts o.toList = ns
  armsFrom : ∀ opening b s, Gathers setting s (armsFrom setting opening fuel b)
    fun o ns => b.broken = false → texts o.toList = armTexts b.arms ++ ns
  loop : ∀ opening s t rest, s.unread = t :: rest → t.kind = .keyword →
    Gathers setting s (loop setting opening fuel) fun o ns => texts o.toList = ns
  definition : ∀ opening s t rest, s.unread = t :: rest → t.kind = .keyword →
    Gathers setting s (definition setting opening fuel) fun o ns => texts o.toList = ns
  callBlock : ∀ opening s t rest, s.unread = t :: rest → t.kind = .keyword →
    Gathers setting s (callBlock setting opening fuel) fun o ns => texts o.toList = ns

theorem templatesGather_zero (setting : Setting) : TemplatesGather setting 0 where
  nodesFrom closers nodes s := by
    rw [nodesFrom]
    exact Gathers.throw
  tag s t rest _ _ := by
    rw [tag]
    exact Gathers.throw
  statement opening s := by
    rw [statement]
    exact Gathers.throw
  body opening construct closers s := by
    rw [body]
    exact Gathers.throw
  branch opening s t rest _ _ := by
    rw [branch]
    exact Gathers.throw
  armsFrom opening b s := by
    rw [armsFrom]
    exact Gathers.throw
  loop opening s t rest _ _ := by
    rw [loop]
    exact Gathers.throw
  definition opening s t rest _ _ := by
    rw [definition]
    exact Gathers.throw
  callBlock opening s t rest _ _ := by
    rw [callBlock]
    exact Gathers.throw

/-- The end tag behind a list of nodes. -/
theorem endTag_passes_of_closing {setting : Setting} {s : State} {word : String}
    (h : s.AtClosing word) (expected : String) : Passes setting s (endTag expected) := by
  obtain ⟨t, u, rest, hs, ht, -⟩ := h
  exact endTag_passes expected hs (by simp [ht])

/-- A further arm breaks the branch only with a complaint. -/
theorem nextArm_gathers {setting : Setting} {s : State} {b : BranchSoFar} {t : Token}
    {rest : List Token} (hs : s.unread = t :: rest) (ht : t.kind = .keyword) :
    Gathers setting s (nextArm b) fun b' ns =>
      ns = [] ∧ b'.arms = b.arms ∧ (b.broken = false → b'.broken = false) := by
  refine Gathers.peek fun t' rest' hs' => ?_
  obtain ⟨rfl, rfl⟩ := List.cons.inj (hs.symm.trans hs')
  split
  · exact Gathers.bind (P := fun _ _ => False) Gathers.recover fun _ _ =>
      Gathers.pure fun _ => False.elim
  · split
    · refine Gathers.advance hs (by simp [ht]) fun s' _ => ?_
      refine Gathers.bind (Gathers.recovering (expectBlockEnd_passes s')) fun _ s'' => ?_
      refine Gathers.pure ?_
      rintro _ ⟨-, -, rfl⟩
      exact ⟨rfl, rfl, id⟩
    · refine Gathers.bind (Gathers.recovering (condition_passes hs (by simp [ht]))) fun o s' => ?_
      refine Gathers.pure ?_
      rintro _ ⟨header, rfl, rfl⟩
      exact ⟨rfl, rfl, by simp⟩

section

variable {setting : Setting} {fuel : Nat} (ih : TemplatesGather setting fuel)

include ih

theorem nodesFrom_gathers (closers : List String) (nodes : List Node) (s : State) :
    Gathers setting s (nodesFrom setting closers (fuel + 1) nodes) fun r ns =>
      texts r.1 = texts nodes.reverse ++ ns := by
  -- a kept node stands behind those before it
  have hkept : ∀ (o : Option Node), texts (o.toList ++ nodes).reverse =
      texts nodes.reverse ++ texts o.toList := by
    rintro (_ | n) <;> simp
  rw [nodesFrom]
  refine Gathers.peek fun t rest hs => ?_
  split
  · exact Gathers.pure (List.append_nil _).symm
  · next ht =>
      refine Gathers.bind (text_gathers hs ht) fun node s' => (ih.nodesFrom closers _ s').imp ?_
      rintro r ms hr _ rfl
      rw [hr, hkept, List.append_assoc]
  · next ht =>
      exact Gathers.pass (comment_passes hs (by simp [ht])) fun _ s' =>
        ih.nodesFrom closers nodes s'
  · next heof htext hcomment =>
      refine Gathers.bind_of (closingWord?_passes setting closers hs)
        (closingWord?_stops closers hs) ?_
      rintro o _ ⟨rfl, -⟩
      split
      · refine Gathers.pure ?_
        rintro _ rfl
        rw [List.append_nil, List.append_nil]
      · refine Gathers.bind (Gathers.recovering (ih.tag _ t rest hs htext)) fun node s' => ?_
        refine (ih.nodesFrom closers _ s').imp ?_
        rintro r ms hr _ ⟨node, rfl, rfl⟩ _ rfl
        rw [hr, hkept, List.nil_append, List.append_assoc]
        rfl

theorem tag_gathers {s : State} {t : Token} {rest : List Token} (hs : s.unread = t :: rest)
    (ht : t.kind ≠ .text) :
    Gathers setting s (tag setting (fuel + 1)) fun o ns => texts o.toList = ns := by
  rw [tag]
  refine Gathers.peek fun t' rest' hs' => ?_
  obtain ⟨rfl, rfl⟩ := List.cons.inj (hs.symm.trans hs')
  split
  · exact Gathers.map (output_gathers hs ht) fun _ _ h => h
  · exact Gathers.advance hs ht fun s' _ => ih.statement _ s'
  · exact Gathers.advance hs ht fun s' _ => Gathers.complain

theorem statement_gathers (opening : Token) (s : State) :
    Gathers setting s (statement setting opening (fuel + 1)) fun o ns => texts o.toList = ns := by
  rw [statement]
  refine Gathers.peek fun t rest hs => ?_
  split
  · next ht =>
    split
    · exact ih.branch opening s t rest hs ht
    · exact ih.loop opening s t rest hs ht
    · exact ih.definition opening s t rest hs ht
    · exact ih.callBlock opening s t rest hs ht
    · exact Gathers.map (inclusion_gathers hs (by simp [ht]) opening) fun _ _ h => h
    · exact Gathers.map (assignment_gathers hs (by simp [ht]) opening) fun _ _ h => h
    · exact Gathers.map (assignment_gathers hs (by simp [ht]) opening) fun _ _ h => h
    · split <;> exact Gathers.complain
  · exact Gathers.complain
  · exact Gathers.complain

theorem body_gathers (opening : Token) (construct : String) (closers : List String) (s : State) :
    Gathers setting s (body setting opening construct closers (fuel + 1)) fun r ns =>
      texts r.1 = ns := by
  rw [body]
  refine Gathers.bind (ih.nodesFrom closers [] s) fun r s' => ?_
  obtain ⟨nodes, word⟩ := r
  cases word with
  | none => exact Gathers.complain
  | some word => exact Gathers.pure fun ns hns => by rw [List.append_nil]; exact hns

theorem branch_gathers (opening : Token) {s : State} {t : Token} {rest : List Token}
    (hs : s.unread = t :: rest) (ht : t.kind = .keyword) :
    Gathers setting s (branch setting opening (fuel + 1)) fun o ns => texts o.toList = ns := by
  rw [branch]
  refine Gathers.bind (Gathers.recovering (condition_passes hs (by simp [ht]))) fun header s' => ?_
  refine (ih.armsFrom opening _ s').imp ?_
  rintro o ms ho _ ⟨e, rfl, rfl⟩
  exact ho rfl

theorem armsFrom_gathers (opening : Token) (b : BranchSoFar) (s : State) :
    Gathers setting s (armsFrom setting opening (fuel + 1) b)
      fun o ns => b.broken = false → texts o.toList = armTexts b.arms ++ ns := by
  rw [armsFrom]
  refine Gathers.bind_of (ih.body opening "if" _ s) (body_stops setting opening "if" _ fuel s) ?_
  rintro r s₁ ⟨-, hclosing⟩
  have harms : ∀ (span : Span), armTexts (b.arms ++ [⟨b.condition, r.1, span⟩]) =
      armTexts b.arms ++ texts r.1 := by
    intro span
    rw [Template.armTexts_append]
    simp [armTexts, texts, Template.walkArms]
  refine Gathers.spanFrom fun armSpan => ?_
  split
  · refine Gathers.pass (endTag_passes_of_closing hclosing "endif") fun _ s₂ => ?_
    split
    · next hbroken =>
        exact Gathers.pure fun ns hns hb => absurd hbroken (by simp [hb])
    · refine Gathers.spanFrom fun span => Gathers.pure fun ns hns _ => ?_
      rw [List.append_nil, ← hns, ← harms armSpan]
      exact Template.texts_branch _ _
  · obtain ⟨t, u, rest, hs, ht, hu, -⟩ := hclosing
    refine Gathers.advance hs (by simp [ht]) fun s₂ hs₂ => ?_
    refine Gathers.bind (nextArm_gathers (hs₂ (by simp [ht])) hu) fun b' s₃ => ?_
    refine (ih.armsFrom opening b' s₃).imp ?_
    rintro o ms ho _ ⟨rfl, hb'arms, hbroken⟩ ns rfl hb
    rw [ho (hbroken hb), hb'arms, harms, List.append_assoc]
    rfl

omit ih in
/-- The end of a loop, behind the bodies with these texts. -/
theorem loopEnd_gathers (opening : Token) (header : Option (List String × Template.Expr))
    (nodes otherwise : List Node) {s : State} {word : String} (hclosing : s.AtClosing word) :
    Gathers setting s (loopEnd setting opening header nodes otherwise) fun o ns =>
      ns = [] ∧ (header.isSome → texts o.toList = texts nodes ++ texts otherwise) := by
  refine Gathers.pass (endTag_passes_of_closing hclosing "endfor") fun _ s' => ?_
  split
  · exact Gathers.pure ⟨rfl, by simp⟩
  · exact Gathers.spanFrom fun span => Gathers.pure ⟨rfl, fun _ => Template.texts_loop ..⟩

theorem loop_gathers (opening : Token) {s : State} {t : Token} {rest : List Token}
    (hs : s.unread = t :: rest) (ht : t.kind = .keyword) :
    Gathers setting s (loop setting opening (fuel + 1)) fun o ns => texts o.toList = ns := by
  rw [loop_succ]
  refine Gathers.bind (Gathers.recovering (loopHeader_passes hs (by simp [ht]))) fun header s₁ => ?_
  have hstops := body_stops setting opening "for" ["else", "endfor"] fuel s₁
  refine Gathers.bind_of (ih.body opening "for" _ s₁) hstops ?_
  rintro r s₂ ⟨-, hclosing⟩
  dsimp only
  split
  · refine Gathers.pass (endTag_passes_of_closing hclosing "else") fun _ s₃ => ?_
    refine Gathers.bind_of (ih.body opening "for" _ s₃)
      (body_stops setting opening "for" _ fuel s₃) ?_
    rintro r' s₄ ⟨-, hclosing'⟩
    rw [pure_bind]
    refine (loopEnd_gathers opening header r.1 r'.1 hclosing').imp ?_
    rintro o _ ⟨rfl, ho⟩ _ rfl _ rfl _ ⟨h, rfl, rfl⟩
    simpa using ho rfl
  · rw [pure_bind]
    refine (loopEnd_gathers opening header r.1 [] hclosing).imp ?_
    rintro o _ ⟨rfl, ho⟩ _ rfl _ ⟨h, rfl, rfl⟩
    simpa using ho rfl

theorem definition_gathers (opening : Token) {s : State} {t : Token} {rest : List Token}
    (hs : s.unread = t :: rest) (ht : t.kind = .keyword) :
    Gathers setting s (definition setting opening (fuel + 1)) fun o ns => texts o.toList = ns := by
  rw [definition]
  refine Gathers.bind (Gathers.recovering (definitionHeader_passes hs (by simp [ht])))
    fun header s₁ => ?_
  refine Gathers.bind_of (ih.body opening "macro" _ s₁)
    (body_stops setting opening "macro" _ fuel s₁) fun r s₂ hstop => ?_
  refine Gathers.pass (endTag_passes_of_closing hstop.2 "endmacro") fun _ s₃ => ?_
  split
  · refine Gathers.pure ?_
    rintro _ rfl _ ⟨h, hnone, -⟩
    cases hnone
  · refine Gathers.spanFrom fun span => Gathers.pure ?_
    rintro _ rfl _ ⟨h, -, rfl⟩
    simp

theorem callBlock_gathers (opening : Token) {s : State} {t : Token} {rest : List Token}
    (hs : s.unread = t :: rest) (ht : t.kind = .keyword) :
    Gathers setting s (callBlock setting opening (fuel + 1)) fun o ns => texts o.toList = ns := by
  rw [callBlock]
  refine Gathers.bind (Gathers.recovering (callHeader_passes hs (by simp [ht])))
    fun header s₁ => ?_
  refine Gathers.bind_of (ih.body opening "call" _ s₁)
    (body_stops setting opening "call" _ fuel s₁) fun r s₂ hstop => ?_
  refine Gathers.pass (endTag_passes_of_closing hstop.2 "endcall") fun _ s₃ => ?_
  split
  · refine Gathers.pure ?_
    rintro _ rfl _ ⟨h, hnone, -⟩
    cases hnone
  · refine Gathers.spanFrom fun span => Gathers.pure ?_
    rintro _ rfl _ ⟨h, -, rfl⟩
    simp

end

/-! ## Every amount of fuel -/

theorem templatesGather (setting : Setting) : ∀ fuel, TemplatesGather setting fuel
  | 0 => templatesGather_zero setting
  | fuel + 1 =>
      have ih := templatesGather setting fuel
      { nodesFrom := nodesFrom_gathers ih
        tag := fun _ _ _ hs ht => tag_gathers ih hs ht
        statement := statement_gathers ih
        body := body_gathers ih
        branch := fun opening _ _ _ hs ht => branch_gathers ih opening hs ht
        armsFrom := armsFrom_gathers ih
        loop := fun opening _ _ _ hs ht => loop_gathers ih opening hs ht
        definition := fun opening _ _ _ hs ht => definition_gathers ih opening hs ht
        callBlock := fun opening _ _ _ hs ht => callBlock_gathers ih opening hs ht }

/-- A template that is read without a complaint holds the texts of all tokens up to the end. -/
theorem template_gathers (setting : Setting) {s : State} (ho : s.Ordered) :
    Ends (template setting) s
      (fun t s' => s'.complaints = [] → ∃ u rest, u.kind = .eof ∧ u :: rest <:+ s.unread ∧
        s.pending setting = texts t.body ++ setting.textsFrom s'.leftMarker (u :: rest))
      fun _ _ => True := by
  have hfuel : 8 * s.unread.length + 1 ≤ templateFuel s.unread.length := by
    unfold templateFuel
    omega
  have hnodes := (templatesGather setting (templateFuel s.unread.length)).nodesFrom [] [] s
  have hmoves := (templatesEnd setting (templateFuel s.unread.length)).nodesFrom [] [] s hfuel ho
  refine Ends.bind (P := fun nodes s' => s'.complaints = [] → ∃ u rest, u.kind = .eof ∧
    u :: rest <:+ s.unread ∧
      s.pending setting = texts nodes ++ setting.textsFrom s'.leftMarker (u :: rest)) ?_ ?_
  · refine templateBody_ends_of ((Ends.and hnodes hmoves).imp ?_ ?_)
    · rintro r s' ⟨hgathers, honward, -⟩ ⟨u, rest, hs', heof⟩ hnone
      obtain ⟨-, ns, hns, htexts⟩ := hgathers hnone
      obtain ⟨us, hus, -⟩ := honward.ahead
      refine ⟨u, rest, heof, ⟨us, by rw [hus, hs']⟩, ?_⟩
      rw [hns, State.pending, hs', htexts]
      rfl
    · exact fun _ _ _ _ _ hnone => absurd hnone (by simp)
  · intro nodes s' hs'
    rcases spanFrom_keeps setting.unit .initial s' with ⟨span, hspan⟩ | ⟨e, he⟩
    · exact Ends.step hspan (Ends.pure hs')
    · unfold Ends
      rw [bind_apply_of_error he]
      trivial

end Parser

/-! ## Texts among the tokens of a source -/

/-- A text stands behind a closing delimiter and in front of an opening one or the end, and nothing
stands behind the end. -/
structure Token.Borders (t u : Token) : Prop where
  behind : u.kind = .text → t.kind.isCloser
  ahead : t.kind = .text → u.kind.isOpener ∨ u.kind = .eof
  goesOn : t.kind ≠ .eof

theorem Token.eq_nil_of_eof {t : Token} {rest : List Token}
    (h : (t :: rest).IsChain Token.Borders) (ht : t.kind = .eof) : rest = [] := by
  cases rest with
  | nil => rfl
  | cons u more => exact absurd ht (List.isChain_cons_cons.mp h).1.goesOn

/-- Only a text or a closing delimiter leads out of a tag. -/
theorem ScanMode.Turns.closes {mode : ScanMode} {kind : TokenKind} (h : mode.Turns kind .text) :
    kind = .text ∨ kind.isCloser := by
  cases h with
  | text => exact .inl rfl
  | closeComment => exact .inr rfl
  | closeTag h => exact .inr (by rcases h with rfl | rfl <;> rfl)

theorem ScanMode.Turns.betweenTags {mode mode' : ScanMode} (h : mode.Turns .text mode') :
    mode = .text ∧ mode' = .text := by
  cases h with
  | text => exact ⟨rfl, rfl⟩
  | openTag h | closeTag h => rcases h with h | h <;> cases h
  | inner h => cases h

namespace Scanner

/-- An opening delimiter or the end of the source is next. -/
structure AtBorder (s : Scanner) : Prop where
  between : s.mode = .text
  ahead : s.rest = [] ∨ ∃ opener, opener? s.delimiters s.rest = some opener

theorem openerKind_isOpener (d : Delimiters) (opener : String) :
    (openerKind d opener).isOpener := by
  rcases openerKind_cases d opener with h | h | h <;> rw [h] <;> rfl

theorem beforeOpener_ends (d : Delimiters) (text : List Char) :
    text.drop (beforeOpener d text).length = [] ∨
      ∃ opener, opener? d (text.drop (beforeOpener d text).length) = some opener := by
  induction text with
  | nil => exact .inl rfl
  | cons c rest ih =>
      rw [beforeOpener]
      split
      · next h => exact .inr (Option.isSome_iff_exists.mp h)
      · exact ih

/-- A text reaches as far as the next border. -/
theorem next_atBorder {s s' : Scanner} {t : Token} (hturns : s.mode.Turns t.kind s'.mode)
    (hnext : s.next = .token t s') (ht : t.kind = .text) : s'.AtBorder := by
  rw [ht] at hturns
  obtain ⟨hmode, hmode'⟩ := hturns.betweenTags
  refine ⟨hmode', ?_⟩
  rw [next, hmode] at hnext
  dsimp only at hnext
  unfold nextText at hnext
  split at hnext
  · cases hnext
    cases ht
  · split at hnext
    · next opener kind hopener =>
        cases hnext
        obtain ⟨-, -, rfl⟩ := opener?_eq_some hopener
        have hkind := openerKind_isOpener s.delimiters opener
        rw [show openerKind s.delimiters opener = .text from ht] at hkind
        cases hkind
    · dsimp only at hnext
      split at hnext
      · cases hnext
      · cases hnext
        exact beforeOpener_ends s.delimiters s.rest

/-- What is read at a border. -/
theorem AtBorder.next {s s' : Scanner} {t : Token} (h : s.AtBorder)
    (hnext : s.next = .token t s') : t.kind.isOpener ∨ t.kind = .eof := by
  rw [Scanner.next, h.between] at hnext
  dsimp only at hnext
  unfold nextText at hnext
  split at hnext
  · cases hnext
    exact .inr rfl
  · next hne =>
      obtain ⟨⟨opener, kind⟩, hopener⟩ := h.ahead.resolve_left hne
      rw [hopener] at hnext
      cases hnext
      obtain ⟨-, -, rfl⟩ := opener?_eq_some hopener
      exact .inl (openerKind_isOpener s.delimiters opener)

/-- Texts stand between borders in the whole run. -/
theorem run_borders (fuel : Nat) (s : Scanner) (hd : s.delimiters.Solid) (hs : s.Consistent) :
    (run fuel s).1.IsChain Token.Borders ∧
      ∀ t ∈ (run fuel s).1.head?, (t.kind = .text → s.mode = .text) ∧
        (s.AtBorder → t.kind.isOpener ∨ t.kind = .eof) := by
  induction fuel generalizing s with
  | zero => exact ⟨.nil, by rintro _ ⟨⟩⟩
  | succ fuel ih =>
      have hsteps := next_steps hd hs
      rw [run]
      split
      · exact ⟨.nil, by rintro _ ⟨⟩⟩
      · exact ⟨.nil, by rintro _ ⟨⟩⟩
      · next t s' hnext =>
          rw [hnext] at hsteps
          obtain ⟨gap, he⟩ := hsteps
          obtain ⟨hchain, hfirst⟩ := ih s' (he.delimiters ▸ hd) he.consistent
          refine ⟨hchain.cons fun u hu => ⟨fun hutext => ?_, fun httext => ?_, fun hteof => ?_⟩, ?_⟩
          · have hturns := he.turns
            rw [(hfirst u hu).1 hutext] at hturns
            refine hturns.closes.resolve_left fun httext => ?_
            -- a text that follows a text would start at a border
            rcases (hfirst u hu).2 (next_atBorder he.turns hnext httext) with h | h <;>
              simp [hutext, TokenKind.isOpener] at h
          · exact (hfirst u hu).2 (next_atBorder he.turns hnext httext)
          · have hturns := he.turns
            rw [hteof] at hturns
            rw [run_finished hturns.finished_of_eof] at hu
            cases hu
          · intro u hu
            obtain rfl : t = u := Option.some.inj hu
            refine ⟨fun httext => ?_, fun hborder => hborder.next hnext⟩
            have hturns := he.turns
            rw [httext] at hturns
            exact hturns.betweenTags.1

end Scanner

theorem tokenize_borders {delimiters : Delimiters} (hd : delimiters.check = .ok ())
    (source unit : String) : (tokenize source unit delimiters).1.IsChain Token.Borders :=
  (Scanner.run_borders _ (.ofSource source unit delimiters) (Delimiters.solid_of_check hd) nofun).1

namespace Parser

open Template (Node texts)

/-- The marker of a closing delimiter that stands directly in front. -/
def markerBehind (before : Option Token) : Option String :=
  before.bind fun t => if t.kind.isCloser then some t.value else none

/-- The text nodes of a sequence of tokens that stands behind `before`. The two tokens beside a text
settle what is left of it, and what comes to nothing is dropped. -/
def Setting.keptTexts (setting : Setting) : Option Token → List Token → List Node
  | _, [] => []
  | before, t :: rest =>
    (if t.kind = .text then (setting.textNode (markerBehind before) (markerAhead rest) t).toList
      else []) ++ setting.keptTexts (some t) rest

/-- The remembered marker is that of the token directly in front, wherever a text comes next. -/
theorem Setting.textsFrom_eq_keptTexts (setting : Setting) {ts : List Token} {left : Option String}
    {before : Option Token} (hchain : ts.IsChain Token.Borders)
    (hleft : ∀ t ∈ ts.head?, t.kind = .text → left = markerBehind before) :
    setting.textsFrom left ts = setting.keptTexts before ts := by
  induction ts generalizing left before with
  | nil => rfl
  | cons t rest ih =>
      obtain ⟨hfirst, hrest⟩ := List.isChain_cons.mp hchain
      rw [keptTexts]
      by_cases ht : t.kind = .text
      · rw [setting.textsFrom_text ht, if_pos ht, hleft t rfl ht]
        congr 1
        refine ih hrest fun u hu hutext => ?_
        have hcloser := (hfirst u hu).behind hutext
        rw [ht] at hcloser
        cases hcloser
      · rw [setting.textsFrom_of_ne ht, if_neg ht, List.nil_append]
        refine ih hrest fun u hu hutext => ?_
        have hcloser := (hfirst u hu).behind hutext
        simp [markerBehind, hcloser]

end Parser

/-- Without complaints, the texts of a template are those of the tokens, each trimmed by the two
tokens beside it: a closing delimiter or nothing in front of it, an opening one or the end behind
it. -/
theorem parse_texts {setting : Parser.Setting} {delimiters : Delimiters} {source : String}
    {p : Parsed} (hd : delimiters.check = .ok ()) (hp : parse setting delimiters source = .ok p)
    (hnone : p.complaints = []) :
    Template.texts p.template.body =
        setting.keptTexts none (tokenize source setting.unit delimiters).1 ∧
      (tokenize source setting.unit delimiters).1.IsChain Token.Borders := by
  have ho := Parser.State.Ordered.of_tokenize hd source setting.unit
  have hchain := tokenize_borders hd source setting.unit
  refine ⟨?_, hchain⟩
  obtain ⟨s', hrun, hcomplaints⟩ := Parser.template_of_parse hp
  obtain ⟨u, rest, heof, hsuffix, hpending⟩ :=
    (Parser.template_gathers setting ho).of_ok hrun (hcomplaints.trans hnone)
  rw [Token.eq_nil_of_eof (hchain.suffix hsuffix) heof, setting.textsFrom_of_ne (by simp [heof]),
    Parser.Setting.textsFrom, List.append_nil] at hpending
  rw [← hpending]
  exact setting.textsFrom_eq_keptTexts hchain fun _ _ _ => rfl

/-- Markers within a loop and a branch, on a comment, and two texts that come to nothing. -/
theorem texts_of_marked_tags :
    let source := "a \n\x7b%- for x in y ~%\x7d\n b \x7b# n -#\x7d \x7b% if x +%\x7d c " ++
      "\x7b\x7b x \x7d\x7d\n\x7b%- endif %\x7d \x7b% endfor %\x7d d"
    let tokens := (tokenize source "page" .standard).1
    ∃ p, parse ⟨"page", .minimize⟩ .standard source = .ok p ∧ p.complaints = [] ∧
      (tokens.filter (·.kind = .text)).length = 7 ∧ (Template.texts p.template.body).length = 5 ∧
      Template.texts p.template.body =
        (⟨"page", .minimize⟩ : Parser.Setting).keptTexts none tokens ∧
      tokens.IsChain Token.Borders := by
  intro source tokens
  obtain ⟨p, hp, hcounts⟩ := Except.exists_of_toOption_map
    (x := parse ⟨"page", .minimize⟩ .standard source)
    (f := fun p => (p.complaints.length, (Template.texts p.template.body).length)) (b := (0, 5))
    (by decide +kernel)
  obtain ⟨hnone, hkept⟩ := Prod.mk.inj hcounts
  have hnone := List.eq_nil_of_length_eq_zero hnone
  exact ⟨p, hp, hnone, by decide +kernel, hkept, parse_texts Delimiters.check_standard hp hnone⟩

end TemplateCompiler
