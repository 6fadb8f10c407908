import TemplateCompiler.Proofs.HeaderComplete
import TemplateCompiler.Proofs.PairedExpressions
import TemplateCompiler.Proofs.WhitespaceModes

/-!
# Templates read side by side

Lists of nodes are where the second run may lack a comment of the first. There the first run takes
up to three turns, a text, the comment and another text, and the second takes one turn for the one
text it has, or none (`LeadsTo`). Behind that both read the same tokens on, with what they have read
equal up to spans and up to how the texts are cut. So the fuel of both sides is left free, and the
induction over the first is a strong one.
-/

namespace TemplateCompiler.Parser

open Template (Expr Node SameJoined SameJoinedArms attach joinedNodes bareNodes joinedNodes_append
  bareNodes_append)

/-! ## Turns that only take texts and comments -/

theorem expect_eq {kind : TokenKind} {problem : SyntaxProblem} {s : State} {t : Token}
    {rest : List Token} (hs : s.unread = t :: rest) (ht : t.kind = kind) (hne : kind ≠ .eof) :
    expect kind problem s = .ok t (s.consume t rest) := by
  refine (bind_apply_of_ok (peek_eq hs)).trans ?_
  rw [if_pos ht]
  exact advance_eq hs (ht ▸ hne)

theorem expect_eq_error {kind : TokenKind} {problem : SyntaxProblem} {s : State}
    (hs : s.unread = []) : expect kind problem s = .error s.beyond s := by
  refine bind_apply_of_error ?_
  rw [peek, hs]

/-- `s'` stands somewhere behind `s`, nothing was wrong in between, and no text is trimmed there. -/
structure State.Onto (setting : Setting) (s s' : State) : Prop where
  fault : s'.fault = s.fault
  complaints : s'.complaints = s.complaints
  begun : s.previous ≠ none → s'.previous ≠ none
  plain : setting.effective s'.leftMarker = .preserve

/-- A list of nodes goes on from `s'`, or there is no fuel to come so far. -/
def LeadsTo (setting : Setting) (closers : List String) (fuel : Nat) (nodes : List Node) (s : State)
    (fuel' : Nat) (nodes' : List Node) (s' : State) : Prop :=
  (∃ s'', nodesFrom setting closers fuel nodes s = .error .outOfFuel s'') ∨
    nodesFrom setting closers fuel nodes s = nodesFrom setting closers fuel' nodes' s'

theorem LeadsTo.trans {setting : Setting} {closers : List String} {fuel fuel' fuel'' : Nat}
    {nodes nodes' nodes'' : List Node} {s s' s'' : State}
    (h : LeadsTo setting closers fuel nodes s fuel' nodes' s')
    (h' : LeadsTo setting closers fuel' nodes' s' fuel'' nodes'' s'') :
    LeadsTo setting closers fuel nodes s fuel'' nodes'' s'' := by
  rcases h with h | h
  · exact .inl h
  · rcases h' with ⟨s₁, h'⟩ | h'
    · exact .inl ⟨s₁, h.trans h'⟩
    · exact .inr (h.trans h')

/-- A text is left alone where no marker says otherwise. -/
theorem Setting.textNode_plain {setting : Setting} {left right : Option String} {t : Token}
    (hleft : setting.effective left = .preserve) (hright : setting.effective right = .preserve)
    (hvalue : t.value ≠ "") : setting.textNode left right t = some (.text t.value t.span) := by
  have hne : t.value.toList.isEmpty = false := by
    rw [List.isEmpty_eq_false_iff]
    exact fun h => hvalue (String.toList_eq_nil_iff.mp h)
  unfold textNode
  rw [hleft, hright, Whitespace.trimLeft_preserve, Whitespace.trimRight_preserve]
  dsimp only
  rw [hne, String.ofList_toList]
  rfl

/-- A text that may be missing makes a node, if it is there. -/
def textNodes (o : Option Token) : List Node :=
  (o.map fun t => Node.text t.value t.span).toList

section

variable {setting : Setting} {s : State} (closers : List String) (fuel : Nat) (nodes : List Node)

/-- A text that may be missing is read in one turn, if it is there. -/
theorem nodesFrom_passesText {o : Option Token} {rest : List Token}
    (hs : s.unread = o.toList ++ rest) (hrest : rest ≠ [])
    (ho : ∀ t ∈ o, t.kind = .text ∧ t.value ≠ "")
    (hleft : setting.effective s.leftMarker = .preserve)
    (hright : setting.effective (markerAhead rest) = .preserve) :
    ∃ fuel' s', fuel' ≤ fuel ∧ s'.unread = rest ∧ s.Onto setting s' ∧
      LeadsTo setting closers fuel nodes s fuel' (textNodes o ++ nodes) s' := by
  cases o with
  | none => exact ⟨fuel, s, Nat.le_refl _, hs, ⟨rfl, rfl, id, hleft⟩, .inr rfl⟩
  | some t =>
      obtain ⟨ht, hvalue⟩ := ho t rfl
      obtain ⟨u, more, rfl⟩ := List.exists_cons_of_ne_nil hrest
      have hunread : s.unread = t :: u :: more := hs
      refine ⟨fuel - 1, { s.consume t (u :: more) with leftMarker := none }, Nat.sub_le _ _, rfl,
        ⟨rfl, rfl, fun _ => Option.some_ne_none _, rfl⟩, ?_⟩
      cases fuel with
      | zero => exact .inl ⟨s, by rw [nodesFrom]; rfl⟩
      | succ fuel =>
          refine .inr ?_
          rw [nodesFrom]
          refine (bind_apply_of_ok (peek_eq hunread)).trans ?_
          rw [ht]
          refine (bind_apply_of_ok (text_eq setting hunread ht)).trans ?_
          rw [Setting.textNode_plain hleft hright hvalue]
          rfl

/-- A comment is read in one turn and makes no node. -/
theorem nodesFrom_passesComment {opening body close : Token} {rest : List Token}
    (hs : s.unread = opening :: body :: close :: rest) (hopening : opening.kind = .commentStart)
    (hbody : body.kind = .comment) (hclose : close.kind = .commentEnd)
    (hplain : setting.effective (some close.value) = .preserve) :
    ∃ s', s'.unread = rest ∧ s.Onto setting s' ∧ s'.previous ≠ none ∧
      LeadsTo setting closers fuel nodes s (fuel - 1) nodes s' := by
  refine ⟨((s.consume opening (body :: close :: rest)).consume body (close :: rest)).consume close
    rest, rfl, ⟨rfl, rfl, fun _ => Option.some_ne_none _, ?_⟩, Option.some_ne_none _, ?_⟩
  · simp only [State.consume, hclose, TokenKind.isCloser, if_true]
    exact hplain
  · cases fuel with
    | zero => exact .inl ⟨s, by rw [nodesFrom]; rfl⟩
    | succ fuel =>
        refine .inr ?_
        rw [nodesFrom]
        refine (bind_apply_of_ok (peek_eq hs)).trans ?_
        rw [hopening]
        refine bind_apply_of_ok (a := ()) ?_
        refine (bind_apply_of_ok (advance_eq hs (by simp [hopening]))).trans ?_
        refine (bind_apply_of_ok (expect_eq rfl hbody (by simp))).trans ?_
        exact bind_apply_of_ok (expect_eq rfl hclose (by simp))

end

/-- What is left of a text token that may be missing, joined or not. -/
theorem joinedNodes_textNodes {o : Option Token} (ho : ∀ t ∈ o, t.value ≠ "") :
    joinedNodes (bareNodes (textNodes o)) =
      if textOf o = "" then [] else [.text (textOf o) .blank] := by
  cases o with
  | none => rfl
  | some t => exact (if_neg (ho t rfl)).symm

/-- The nodes on both sides of a comment that is left out. -/
theorem Joins.same {before after whole : Option Token} (h : Joins before after whole) :
    SameJoined (textNodes before ++ textNodes after) (textNodes whole) := by
  have hne : ∀ o ∈ [before, after, whole], ∀ t ∈ o, t.value ≠ "" :=
    fun o ho t ht => (h.texts o ho t ht).2
  unfold SameJoined
  rw [bareNodes_append, joinedNodes_append, joinedNodes_textNodes (hne whole (by simp)),
    joinedNodes_textNodes (hne before (by simp)), joinedNodes_textNodes (hne after (by simp)),
    h.value]
  by_cases hbefore : textOf before = ""
  · simp [hbefore]
  · by_cases hafter : textOf after = ""
    · simp [hbefore, hafter, attach]
    · simp [hbefore, hafter, attach]

theorem State.Onto.trans {setting : Setting} {s s' s'' : State} (h : s.Onto setting s')
    (h' : s'.Onto setting s'') : s.Onto setting s'' :=
  ⟨h'.fault.trans h.fault, h'.complaints.trans h.complaints, fun hs => h'.begun (h.begun hs),
    h'.plain⟩

namespace Pairing

variable {P : Pairing} {begun : Prop} {s s' : State} {t : Token} {rest : List Token}

/-! ## What is ahead between tags -/

/-- Where comments may be left out, no marker is ahead that would trim a text. -/
theorem Ahead.plain {mode : ScanMode} {ts us : List Token} (h : P.Ahead mode ts us)
    (hjoins : P.joins) : P.setting.effective (markerAhead ts) = .preserve ∧
      P.setting.effective (markerAhead us) = .preserve := by
  have htext : ∀ {t : Token} (rest : List Token), t.kind = .text →
      P.setting.effective (markerAhead (t :: rest)) = .preserve := by
    intro t rest ht
    rw [markerAhead, ht]
    rfl
  induction h with
  | nil => exact ⟨rfl, rfl⟩
  | @step _ _ t u ts us htokens =>
      have hright : P.setting.effective (markerAhead (t :: ts)) = .preserve := by
        show P.setting.effective (if t.kind.isOpener then some t.value else none) = _
        split
        · next hopen => exact P.plain hjoins htokens (.inl hopen)
        · rfl
      refine ⟨hright, ?_⟩
      rw [markerAhead, P.kind htokens, P.value htokens]
      exact hright
  | @joint opening _ _ before _ whole _ _ _ hopening _ _ hplain htexts _ _ _ ih =>
      constructor
      · cases before with
        | none =>
            show P.setting.effective (markerAhead (opening :: _)) = _
            rw [markerAhead, hopening]
            exact hplain opening List.mem_cons_self
        | some t => exact htext _ (htexts.texts (some t) (by simp) t rfl).1
      · cases whole with
        | none => exact ih.2
        | some t => exact htext _ (htexts.texts (some t) (by simp) t rfl).1

theorem Ahead.eq_nil_iff {mode : ScanMode} {ts us : List Token} (h : P.Ahead mode ts us) :
    ts = [] ↔ us = [] := by
  cases h with
  | nil => simp
  | step => simp
  | joint _ _ _ _ _ _ _ hus => simp [hus]

/-- The markers ahead come to the same. -/
theorem Ahead.marker {ts us : List Token} (h : P.Ahead .text ts us) :
    P.setting.effective (markerAhead us) = P.setting.effective (markerAhead ts) := by
  cases h with
  | nil => rfl
  | step htokens => rw [markerAhead, markerAhead, P.kind htokens, P.value htokens]
  | joint hjoins hopening hbody hclose hplain htexts hts hus h =>
      have hboth := (Ahead.joint hjoins hopening hbody hclose hplain htexts hts hus h).plain hjoins
      rw [hboth.1, hboth.2]

/-- There is no joint where a tag or the end is next. -/
theorem Ahead.step_of {ts us : List Token} (h : P.Ahead .text (t :: ts) us) (ht : t.kind ≠ .text)
    (hcomment : t.kind ≠ .commentStart) : ∃ u us', us = u :: us' ∧ P.tokens t u ∧
      ∃ mode', ScanMode.text.Turns t.kind mode' ∧ P.Ahead mode' ts us' := by
  generalize hall : t :: ts = all at h
  cases h with
  | nil => cases hall
  | step htokens hturns h =>
      obtain ⟨rfl, rfl⟩ := List.cons.inj hall
      exact ⟨_, _, rfl, htokens, _, hturns, h⟩
  | @joint opening _ _ before _ _ _ _ _ hopening _ _ _ htexts =>
      cases before with
      | none =>
          obtain ⟨rfl, -⟩ := List.cons.inj hall
          exact absurd hopening hcomment
      | some t' =>
          obtain ⟨rfl, -⟩ := List.cons.inj hall
          exact absurd (htexts.texts (some t) (by simp) t rfl).1 ht

/-- A delimiter that opens a block or an expression. -/
theorem Beside.opener (h : P.Beside .text begun s s') (hs : s.unread = t :: rest)
    (ht : t.kind = .blockStart ∨ t.kind = .exprStart) :
    ∃ u rest', s'.unread = u :: rest' ∧ P.tokens t u ∧ P.Ahead .tag rest rest' := by
  have hahead := h.ahead
  rw [hs] at hahead
  obtain ⟨u, rest', hs', htu, mode', hturns, hrest⟩ := hahead.step_of
    (by rcases ht with ht | ht <;> simp [ht]) (by rcases ht with ht | ht <;> simp [ht])
  refine ⟨u, rest', hs', htu, ?_⟩
  rcases ht with ht | ht <;> (rw [ht] at hturns; cases hturns; exact hrest)

theorem Pair.enter {γ δ : Type} {f : Token → Parser γ} {g : Token → Parser δ}
    {Q : γ → δ → State → State → Prop} (h : P.Beside .text begun s s') (hs : s.unread = t :: rest)
    (ht : t.kind = .blockStart ∨ t.kind = .exprStart)
    (hf : ∀ u s₁ s₁', P.tokens t u → P.Beside .tag True s₁ s₁' → s₁.unread = rest →
      P.Pair s₁ s₁' (f t) (g u) Q) :
    P.Pair s s' (Parser.advance >>= f) (Parser.advance >>= g) Q := by
  obtain ⟨u, rest', hs', htu, hrest⟩ := h.opener hs ht
  have hne : t.kind ≠ .eof := by
    rcases ht with ht | ht <;> simp [ht]
  exact Pair.step (advance_eq hs hne) (advance_eq hs' (by rwa [P.kind htu]))
    (hf u _ _ htu (h.consume htu hrest) rfl)

theorem endTag_pair {found : String} (word : String) (h : P.Beside .text begun s s')
    (hclosing : s.AtClosing found) :
    P.Pair s s' (endTag word) (endTag word) fun _ _ s₁ s₁' => P.Beside .text True s₁ s₁' := by
  obtain ⟨t, u, rest, hs, ht, -⟩ := hclosing
  unfold endTag
  exact Pair.enter h hs (.inl ht) fun _ _ _ _ h₁ _ => wordTag_pair word h₁

/-- What is known of the first run alone. -/
theorem Pair.and_ends {α β : Type} {p : Parser α} {q : Parser β} {R : α → β → State → State → Prop}
    {Q : α → State → Prop} {E : Stop → State → Prop} (h : P.Pair s s' p q R) (hp : Ends p s Q E) :
    P.Pair s s' p q fun a b s₁ s₁' => R a b s₁ s₁' ∧ Q a s₁ := by
  cases h with
  | ok hok hq h => exact .ok hok hq ⟨h, hp.of_ok hok⟩
  | complaint hok hq hc hs => exact .complaint hok hq hc hs
  | stop hok hq he hs => exact .stop hok hq he hs
  | first hok he => exact .first hok he
  | second hq he => exact .second hq he

/-! ## Texts and comments -/

/-- What is kept of a text or a tag, if anything, is the same up to spans and cuts. -/
def SameKept (o o' : Option Node) : Prop :=
  SameJoined o.toList o'.toList

theorem textNode_same {t u : Token} (htu : P.tokens t u) {left left' right right' : Option String}
    (hleft : P.setting.effective left' = P.setting.effective left)
    (hright : P.setting.effective right' = P.setting.effective right) :
    SameKept (P.setting.textNode left right t) (P.setting.textNode left' right' u) := by
  unfold SameKept Setting.textNode
  rw [hleft, hright, P.value htu]
  dsimp only
  split
  · exact SameJoined.refl []
  · exact SameJoined.of_bare rfl

theorem text_pair {u : Token} {rest' : List Token} (h : P.Beside .text begun s s')
    (hs : s.unread = t :: rest) (hs' : s'.unread = u :: rest') (htu : P.tokens t u)
    (ht : t.kind = .text) (hrest : P.Ahead .text rest rest') :
    P.Pair s s' (text P.setting) (text P.setting) (P.BehindTag SameKept) := by
  have hu : u.kind = .text := by rwa [P.kind htu]
  have hconsumed := h.consume htu hrest
  have hstop : ∀ {s : State} {t : Token}, s.unread = [t] → t.kind = .text →
      text P.setting s = .error (s.consume t []).beyond (s.consume t []) := fun hs ht =>
    (bind_apply_of_ok (advance_eq hs (by simp [ht]))).trans (bind_apply_of_error rfl)
  have hmarker := hrest.marker
  cases rest with
  | nil =>
      obtain rfl := hrest.eq_nil_iff.mp rfl
      exact .stop (hstop hs ht) (hstop hs' hu) hconsumed.beyond hconsumed.complaints
  | cons v more =>
      obtain ⟨v', more', rfl⟩ : ∃ v' more', rest' = v' :: more' :=
        List.exists_cons_of_ne_nil fun hnil => List.cons_ne_nil v more (hrest.eq_nil_iff.mpr hnil)
      refine .ok (text_eq P.setting hs ht) (text_eq P.setting hs' hu)
        ⟨textNode_same htu h.markers hmarker, ?_⟩
      exact ⟨hconsumed.ahead, hconsumed.fault, hconsumed.complaints,
        fun _ => ⟨Option.some_ne_none _, Option.some_ne_none _⟩, rfl, fun _ => rfl⟩

theorem comment_pair {u : Token} {rest' : List Token} (h : P.Beside .text begun s s')
    (hs : s.unread = t :: rest) (hs' : s'.unread = u :: rest') (htu : P.tokens t u)
    (ht : t.kind = .commentStart) {p : Position} (hrest : P.Ahead (.comment p) rest rest') :
    P.Pair s s' comment comment fun _ _ s₁ s₁' => P.Beside .text True s₁ s₁' := by
  have hu : u.kind = .commentStart := by rwa [P.kind htu]
  have h₁ := h.consume htu hrest
  refine Pair.step (advance_eq hs (by simp [ht])) (advance_eq hs' (by simp [hu])) ?_
  cases hrest with
  | nil =>
      exact Pair.beyond h₁ (bind_apply_of_error (expect_eq_error rfl))
        (bind_apply_of_error (expect_eq_error rfl))
  | @step _ mode' body body' more more' hbb hturns hmore =>
      generalize hkind : body.kind = kind at hturns
      cases hturns with
      | comment =>
          have hkind' : body'.kind = .comment := by rwa [P.kind hbb]
          have h₂ := h₁.consume hbb hmore
          refine Pair.step (expect_eq rfl hkind (by simp)) (expect_eq rfl hkind' (by simp)) ?_
          cases hmore with
          | nil =>
              exact Pair.beyond h₂ (bind_apply_of_error (expect_eq_error rfl))
                (bind_apply_of_error (expect_eq_error rfl))
          | @step _ mode' close close' last last' hcc hturns hlast =>
              generalize hkind : close.kind = kind at hturns
              cases hturns with
              | closeComment =>
                  have hkind' : close'.kind = .commentEnd := by rwa [P.kind hcc]
                  exact Pair.step (expect_eq rfl hkind (by simp)) (expect_eq rfl hkind' (by simp))
                    (Pair.pure (h₂.consume hcc hlast))

/-- The same closing word is found on both sides. -/
theorem closingWord?_pair (closers : List String) {u : Token} {rest' : List Token}
    (h : P.Beside .text begun s s') (hs : s.unread = t :: rest) (hs' : s'.unread = u :: rest')
    (htu : P.tokens t u) :
    P.Pair s s' (closingWord? closers t) (closingWord? closers u) fun o o' s₁ s₁' =>
      o' = o ∧ s₁ = s ∧ s₁' = s' := by
  unfold closingWord?
  rw [P.kind htu]
  split
  · next ht =>
      obtain ⟨u', more', hs₁', -, hrest⟩ := h.opener hs (.inl ht)
      obtain ⟨rfl, rfl⟩ := List.cons.inj (hs'.symm.trans hs₁')
      have hne : t.kind ≠ .eof := by simp [ht]
      have hne' : u.kind ≠ .eof := by rwa [P.kind htu]
      rcases hrest.tag_cases with ⟨rfl, rfl⟩ | ⟨v, _, v', _, rfl, rfl, hvv, -⟩
      · have hlast : ∀ {s : State} {t : Token}, s.unread = [t] → t.kind ≠ .eof →
            peekSecond s = .error s.beyond s := by
          intro s t hs ht
          simp only [peekSecond, hs, if_neg ht]
        exact Pair.beyond h (bind_apply_of_error (hlast hs hne))
          (bind_apply_of_error (hlast hs' hne'))
      · refine Pair.step (peekSecond_eq hs hne) (peekSecond_eq hs' hne') (Pair.pure ⟨?_, rfl, rfl⟩)
        rw [P.kind hvv, P.value hvv]
  · exact Pair.pure ⟨rfl, rfl, rfl⟩

/-! ## Templates at one amount of fuel -/

/-- Branches that are read equally far, up to spans and cuts. -/
structure SameBranch (b b' : BranchSoFar) : Prop where
  arms : SameJoinedArms b.arms b'.arms
  condition : b'.condition.map Expr.bare = b.condition.map Expr.bare
  broken : b'.broken = b.broken
  seenElse : b'.seenElse = b.seenElse

/-- Nodes and the word that ended them. -/
def SameNodes {ω : Type} (r r' : List Node × ω) : Prop :=
  SameJoined r.1 r'.1 ∧ r'.2 = r.2

structure TemplatesPair (P : Pairing) (fuel : Nat) : Prop where
  nodesFrom : ∀ closers begun fuel' ns ms s s', SameJoined ns.reverse ms.reverse →
    P.Beside .text begun s s' →
    P.Pair s s' (nodesFrom P.setting closers fuel ns) (nodesFrom P.setting closers fuel' ms)
      fun r r' s₁ s₁' => SameNodes r r' ∧ P.Beside .text begun s₁ s₁'
  tag : ∀ fuel' begun s s' t rest, P.Beside .text begun s s' → s.unread = t :: rest →
    t.kind = .blockStart ∨ t.kind = .exprStart →
    P.Pair s s' (tag P.setting fuel) (tag P.setting fuel') (P.BehindTag SameKept)
  statement : ∀ fuel' opening opening' s s', P.tokens opening opening' → P.Beside .tag True s s' →
    P.Pair s s' (statement P.setting opening fuel) (statement P.setting opening' fuel')
      (P.BehindTag SameKept)
  body : ∀ fuel' opening opening' construct closers s s', P.tokens opening opening' →
    P.Beside .text True s s' →
    P.Pair s s' (body P.setting opening construct closers fuel)
      (body P.setting opening' construct closers fuel') fun r r' s₁ s₁' =>
        P.BehindTag SameNodes r r' s₁ s₁' ∧ s₁.AtClosing r.2
  branch : ∀ fuel' opening opening' s s' t rest, P.tokens opening opening' →
    P.Beside .tag True s s' → s.unread = t :: rest → t.kind.isInner →
    P.Pair s s' (branch P.setting opening fuel) (branch P.setting opening' fuel')
      (P.BehindTag SameKept)
  armsFrom : ∀ fuel' opening opening' b b' s s', P.tokens opening opening' → SameBranch b b' →
    P.Beside .text True s s' →
    P.Pair s s' (armsFrom P.setting opening fuel b) (armsFrom P.setting opening' fuel' b')
      (P.BehindTag SameKept)
  loop : ∀ fuel' opening opening' s s' t rest, P.tokens opening opening' →
    P.Beside .tag True s s' → s.unread = t :: rest → t.kind.isInner →
    P.Pair s s' (loop P.setting opening fuel) (loop P.setting opening' fuel')
      (P.BehindTag SameKept)
  definition : ∀ fuel' opening opening' s s' t rest, P.tokens opening opening' →
    P.Beside .tag True s s' → s.unread = t :: rest → t.kind.isInner →
    P.Pair s s' (definition P.setting opening fuel) (definition P.setting opening' fuel')
      (P.BehindTag SameKept)
  callBlock : ∀ fuel' opening opening' s s' t rest, P.tokens opening opening' →
    P.Beside .tag True s s' → s.unread = t :: rest → t.kind.isInner →
    P.Pair s s' (callBlock P.setting opening fuel) (callBlock P.setting opening' fuel')
      (P.BehindTag SameKept)

theorem templatesPair_zero (P : Pairing) : TemplatesPair P 0 where
  nodesFrom _ _ _ _ _ _ _ _ _ := by
    rw [Parser.nodesFrom]
    exact Pair.outOfFuel
  tag _ _ _ _ _ _ _ _ _ := by
    rw [Parser.tag]
    exact Pair.outOfFuel
  statement _ _ _ _ _ _ _ := by
    rw [Parser.statement]
    exact Pair.outOfFuel
  body _ _ _ _ _ _ _ _ _ := by
    rw [Parser.body]
    exact Pair.outOfFuel
  branch _ _ _ _ _ _ _ _ _ _ _ := by
    rw [Parser.branch]
    exact Pair.outOfFuel
  armsFrom _ _ _ _ _ _ _ _ _ _ := by
    rw [Parser.armsFrom]
    exact Pair.outOfFuel
  loop _ _ _ _ _ _ _ _ _ _ _ := by
    rw [Parser.loop]
    exact Pair.outOfFuel
  definition _ _ _ _ _ _ _ _ _ _ _ := by
    rw [Parser.definition]
    exact Pair.outOfFuel
  callBlock _ _ _ _ _ _ _ _ _ _ _ := by
    rw [Parser.callBlock]
    exact Pair.outOfFuel

/-- What is kept stands behind the nodes before it. -/
theorem SameKept.reverse {o o' : Option Node} {ns ms : List Node} (h : SameKept o o')
    (hns : SameJoined ns.reverse ms.reverse) :
    SameJoined (o.toList ++ ns).reverse (o'.toList ++ ms).reverse := by
  have hone : ∀ o : Option Node, o.toList.reverse = o.toList := by
    intro o
    cases o <;> rfl
  rw [List.reverse_append, List.reverse_append, hone, hone]
  exact hns.append h

section

variable {fuel fuel' : Nat} (ih : ∀ m ≤ fuel, TemplatesPair P m)

include ih

/-- Where the second run lacks a comment, the first goes on behind it with less fuel. -/
theorem nodesFrom_pair_joint (closers : List String) {ns ms : List Node}
    {opening body close : Token} {before after whole : Option Token} {ts us : List Token}
    (hjoins : P.joins) (hopening : opening.kind = .commentStart) (hbody : body.kind = .comment)
    (hclose : close.kind = .commentEnd)
    (hplain : ∀ t ∈ [opening, close], P.setting.effective (some t.value) = .preserve)
    (htexts : Joins before after whole) (hts : ts ≠ []) (hus : us ≠ [])
    (hahead : P.Ahead .text ts us)
    (hs : s.unread = before.toList ++ opening :: body :: close :: (after.toList ++ ts))
    (hs' : s'.unread = whole.toList ++ us) (hns : SameJoined ns.reverse ms.reverse)
    (h : P.Beside .text begun s s') :
    P.Pair s s' (nodesFrom P.setting closers (fuel + 1) ns) (nodesFrom P.setting closers fuel' ms)
      fun r r' s₁ s₁' => SameNodes r r' ∧ P.Beside .text begun s₁ s₁' := by
  have hmarkers := hahead.plain hjoins
  have hmark :
      P.setting.effective (markerAhead (opening :: body :: close :: (after.toList ++ ts))) =
        .preserve := by
    rw [markerAhead, hopening]
    exact hplain opening List.mem_cons_self
  -- the first run takes the text before the comment, the comment and the text behind it
  obtain ⟨n₁, s₁, hn₁, hs₁, honto₁, hleads₁⟩ := nodesFrom_passesText closers (fuel + 1) ns hs
    (List.cons_ne_nil _ _) (htexts.texts before (by simp)) (h.plain hjoins) hmark
  obtain ⟨s₂, hs₂, honto₂, -, hleads₂⟩ := nodesFrom_passesComment closers n₁
    (textNodes before ++ ns) hs₁ hopening hbody hclose (hplain close (by simp))
  obtain ⟨n₃, s₃, hn₃, hs₃, honto₃, hleads₃⟩ := nodesFrom_passesText closers (n₁ - 1)
    (textNodes before ++ ns) hs₂ hts (htexts.texts after (by simp)) honto₂.plain hmarkers.1
  have honto := (honto₁.trans honto₂).trans honto₃
  -- the second run takes the one text that it has
  have hleft' : P.setting.effective s'.leftMarker = .preserve := h.markers.trans (h.plain hjoins)
  obtain ⟨n', s₁', -, hs₁', honto', hleads'⟩ := nodesFrom_passesText closers fuel' ms hs'
    hus (htexts.texts whole (by simp)) hleft' hmarkers.2
  have hbeside : P.Beside .text begun s₃ s₁' := by
    refine ⟨?_, ?_, ?_, fun hbegun => ?_, ?_, fun _ => honto.plain⟩
    · rw [hs₃, hs₁']
      exact hahead
    · rw [honto.fault, honto'.fault]
      exact h.fault
    · rw [honto.complaints, honto'.complaints]
      exact h.complaints
    · exact ⟨honto.begun (h.begun hbegun).1, honto'.begun (h.begun hbegun).2⟩
    · rw [honto.plain, honto'.plain]
  have hone : ∀ o : Option Token, (textNodes o).reverse = textNodes o := by
    intro o
    cases o <;> rfl
  have hnodes : SameJoined (textNodes after ++ (textNodes before ++ ns)).reverse
      (textNodes whole ++ ms).reverse := by
    simp only [List.reverse_append, hone, List.append_assoc]
    exact hns.append htexts.same
  have hrest := (ih n₃ (by omega)).nodesFrom closers begun n' _ _ s₃ s₁' hnodes hbeside
  rcases (hleads₁.trans hleads₂).trans hleads₃ with ⟨_, hout⟩ | hfirst
  · exact .first hout trivial
  · rcases hleads' with ⟨_, hout⟩ | hsecond
    · exact .second hout trivial
    · exact hrest.after hfirst hsecond

theorem nodesFrom_pair (closers : List String) {ns ms : List Node}
    (hns : SameJoined ns.reverse ms.reverse) (h : P.Beside .text begun s s') :
    P.Pair s s' (nodesFrom P.setting closers (fuel + 1) ns) (nodesFrom P.setting closers fuel' ms)
      fun r r' s₁ s₁' => SameNodes r r' ∧ P.Beside .text begun s₁ s₁' := by
  obtain ⟨ts, hts⟩ : ∃ ts, s.unread = ts := ⟨_, rfl⟩
  obtain ⟨us, hus⟩ : ∃ us, s'.unread = us := ⟨_, rfl⟩
  have hahead := h.ahead
  rw [hts, hus] at hahead
  generalize hmode : ScanMode.text = mode at hahead
  cases hahead with
  | joint hjoins hopening hbody hclose hplain htexts hne hne' hahead =>
      exact nodesFrom_pair_joint ih closers hjoins hopening hbody hclose hplain htexts hne hne'
        hahead hts hus hns h
  | nil =>
      have hbeyond : ∀ {fuel : Nat} {nodes : List Node} {s : State}, s.unread = [] →
          nodesFrom P.setting closers (fuel + 1) nodes s = .error s.beyond s := by
        intro fuel nodes s hs
        rw [nodesFrom]
        refine bind_apply_of_error ?_
        rw [peek, hs]
      cases fuel' with
      | zero =>
          rw [nodesFrom.eq_def P.setting closers 0]
          exact Pair.outOfFuel_second
      | succ fuel' => exact Pair.beyond h (hbeyond hts) (hbeyond hus)
  | @step _ mode' t u rest rest' htu hturns hrest =>
      subst hmode
      cases fuel' with
      | zero =>
          rw [nodesFrom.eq_def P.setting closers 0]
          exact Pair.outOfFuel_second
      | succ fuel' =>
          have hgo := (ih fuel (Nat.le_refl _)).nodesFrom closers begun fuel'
          rw [nodesFrom, nodesFrom]
          refine Pair.step (peek_eq hts) (peek_eq hus) ?_
          rw [P.kind htu]
          split
          · exact Pair.pure ⟨⟨hns, rfl⟩, h⟩
          · next ht =>
              have htext : P.Ahead .text rest rest' := by
                rw [ht] at hturns
                cases hturns with
                | text => exact hrest
                | openTag hopen => rcases hopen with hkind | hkind <;> cases hkind
              refine Pair.bind (text_pair h hts hus htu ht htext) ?_
              rintro o o' s₁ s₁' ⟨ho, h₁⟩
              exact hgo _ _ s₁ s₁' (ho.reverse hns) h₁.weaken
          · next ht =>
              obtain ⟨p, hcomment⟩ : ∃ p, P.Ahead (.comment p) rest rest' := by
                rw [ht] at hturns
                cases hturns with
                | openComment => exact ⟨_, hrest⟩
                | openTag hopen => rcases hopen with hkind | hkind <;> cases hkind
              exact Pair.bind (comment_pair h hts hus htu ht hcomment) fun _ _ s₁ s₁' h₁ =>
                hgo _ _ s₁ s₁' hns h₁.weaken
          · next heof htext hcomment =>
              have ht : t.kind = .blockStart ∨ t.kind = .exprStart := by
                generalize t.kind = kind at *
                cases hturns with
                | openTag hopen => exact hopen
                | _ => contradiction
              refine Pair.bind (closingWord?_pair closers h hts hus htu) ?_
              rintro _ word s₀ s₀' ⟨rfl, rfl, rfl⟩
              cases word with
              | some word => exact Pair.pure ⟨⟨hns, rfl⟩, h⟩
              | none =>
                  have htag := (ih fuel (Nat.le_refl _)).tag fuel' begun _ _ t rest h hts ht
                  refine Pair.bind (htag.recovering fun _ _ _ _ hr => hr.2) ?_
                  rintro o o' s₁ s₁' ⟨h₁, ho⟩
                  have hkept : SameKept o.join o'.join := by
                    rcases ho with ⟨rfl, rfl⟩ | ⟨n, n', rfl, rfl, hn⟩
                    · exact SameJoined.refl []
                    · exact hn.1
                  exact hgo _ _ s₁ s₁' (hkept.reverse hns) h₁.weaken

end

theorem kept_pair {p q : Parser Node} (h : P.Pair s s' p q (P.BehindTag SameNode)) :
    P.Pair s s' (some <$> p) (some <$> q) (P.BehindTag SameKept) :=
  Pair.map h fun _ _ _ _ ⟨hn, h₁⟩ => ⟨SameJoined.of_bare hn, h₁⟩

/-- A further arm, behind the delimiter that opens its tag. -/
theorem nextArm_pair {b b' : BranchSoFar} (hb : SameBranch b b') (h : P.Beside .tag True s s')
    (hs : s.unread = t :: rest) (ht : t.kind = .keyword) :
    P.Pair s s' (nextArm b) (nextArm b') (P.BehindTag SameBranch) := by
  have hinner : t.kind.isInner := by
    rw [ht]
    rfl
  refine Pair.peek h fun v more u rest' hv hs' hvu => ?_
  obtain ⟨rfl, rfl⟩ := List.cons.inj (hs.symm.trans hv)
  rw [hb.seenElse, isKeyword hvu, P.value hvu]
  split
  · refine Pair.bind (Pair.recover h (Pair.complaints hvu (by simp))) fun _ _ s₁ s₁' h₁ => ?_
    exact Pair.pure ⟨⟨hb.arms, hb.condition, rfl, rfl⟩, h₁⟩
  · split
    · refine Pair.advance h hs hinner fun _ s₁ s₁' _ h₁ _ => ?_
      have hend : P.Pair s₁ s₁' expectBlockEnd expectBlockEnd (P.BehindTag fun _ _ => True) := by
        rw [← bind_pure expectBlockEnd]
        exact Pair.close h₁ (.inl rfl) (by simp) fun _ _ _ _ h₂ => Pair.pure ⟨trivial, h₂⟩
      refine Pair.bind (hend.recovering fun _ _ _ _ hr => hr.2) ?_
      rintro _ _ s₂ s₂' ⟨h₂, _⟩
      exact Pair.pure ⟨⟨hb.arms, rfl, hb.broken, rfl⟩, h₂⟩
    · refine Pair.bind ((condition_pair h hs hinner).recovering fun _ _ _ _ hr => hr.2) ?_
      rintro o o' s₁ s₁' ⟨h₁, ⟨rfl, rfl⟩ | ⟨e, e', rfl, rfl, he, -⟩⟩
      · exact Pair.pure ⟨⟨hb.arms, rfl, congrArg (· || true) hb.broken, rfl⟩, h₁⟩
      · exact Pair.pure ⟨⟨hb.arms, congrArg some he, congrArg (· || false) hb.broken, rfl⟩, h₁⟩

/-- What stands behind the bodies of a loop. -/
theorem loopEnd_pair {opening opening' : Token} {found : String}
    {header header' : Option (List String × Expr)} {ns ms ns' ms' : List Node}
    (hheader : header = none ∧ header' = none ∨ ∃ r r', header = some r ∧ header' = some r' ∧
      r'.1 = r.1 ∧ SameExpr r.2 r'.2)
    (h : P.Beside .text True s s') (hclosing : s.AtClosing found) (hns : SameJoined ns ms)
    (hns' : SameJoined ns' ms') :
    P.Pair s s' (loopEnd P.setting opening header ns ns')
      (loopEnd P.setting opening' header' ms ms') (P.BehindTag SameKept) := by
  refine Pair.bind (endTag_pair "endfor" h hclosing) fun _ _ s₁ s₁' h₁ => ?_
  rcases hheader with ⟨rfl, rfl⟩ | ⟨⟨targets, e⟩, ⟨_, e'⟩, rfl, rfl, rfl, he⟩
  · exact Pair.pure ⟨SameJoined.refl [], h₁⟩
  · exact Pair.spanFrom h₁ fun _ _ => Pair.pure ⟨SameJoined.loop he hns hns', h₁⟩

section

variable {fuel fuel' : Nat} (ih : TemplatesPair P fuel) {opening opening' : Token}

include ih

theorem tag_pair (h : P.Beside .text begun s s') (hs : s.unread = t :: rest)
    (ht : t.kind = .blockStart ∨ t.kind = .exprStart) :
    P.Pair s s' (tag P.setting (fuel + 1)) (tag P.setting fuel') (P.BehindTag SameKept) := by
  cases fuel' with
  | zero =>
      rw [tag.eq_def P.setting 0]
      exact Pair.outOfFuel_second
  | succ fuel' =>
      obtain ⟨u, rest', hs', htu, -⟩ := h.opener hs ht
      rw [tag, tag]
      refine Pair.step (peek_eq hs) (peek_eq hs') ?_
      rw [P.kind htu]
      split
      · refine kept_pair ?_
        unfold output
        exact Pair.enter h hs ht fun u s₁ s₁' _ h₁ _ => output_pair P.setting t u h₁
      · exact Pair.enter h hs ht fun u s₁ s₁' htu h₁ _ => ih.statement fuel' t u s₁ s₁' htu h₁
      · next hexpr hblock => exact (ht.elim hblock hexpr).elim

theorem statement_pair (hopening : P.tokens opening opening') (h : P.Beside .tag True s s') :
    P.Pair s s' (statement P.setting opening (fuel + 1)) (statement P.setting opening' fuel')
      (P.BehindTag SameKept) := by
  cases fuel' with
  | zero =>
      rw [statement.eq_def P.setting opening' 0]
      exact Pair.outOfFuel_second
  | succ fuel' =>
      rw [statement, statement]
      refine Pair.peek h fun t rest u rest' hs hs' htu => ?_
      rw [P.kind htu, P.value htu]
      split
      · next ht =>
          have hinner : t.kind.isInner := by
            rw [ht]
            rfl
          split
          · exact ih.branch fuel' opening opening' s s' t rest hopening h hs hinner
          · exact ih.loop fuel' opening opening' s s' t rest hopening h hs hinner
          · exact ih.definition fuel' opening opening' s s' t rest hopening h hs hinner
          · exact ih.callBlock fuel' opening opening' s s' t rest hopening h hs hinner
          · exact kept_pair (inclusion_pair P.setting opening opening' h hs hinner)
          · exact kept_pair (assignment_pair P.setting opening opening' h hs hinner)
          · exact kept_pair (assignment_pair P.setting opening opening' h hs hinner)
          · split <;> exact Pair.complain h (Pair.complaints htu (by simp))
      · exact Pair.complain h (Pair.complaints htu (by simp))
      · exact Pair.complain h (Pair.complaints htu (by simp))

theorem body_pair (construct : String) (closers : List String)
    (hopening : P.tokens opening opening') (h : P.Beside .text True s s') :
    P.Pair s s' (body P.setting opening construct closers (fuel + 1))
      (body P.setting opening' construct closers fuel') fun r r' s₁ s₁' =>
        P.BehindTag SameNodes r r' s₁ s₁' ∧ s₁.AtClosing r.2 := by
  cases fuel' with
  | zero =>
      rw [body.eq_def P.setting opening' construct closers 0]
      exact Pair.outOfFuel_second
  | succ fuel' =>
      have hnodes := (ih.nodesFrom closers True fuel' [] [] s s' (SameJoined.refl []) h).and_ends
        (nodesFrom_stops P.setting closers fuel [] s)
      rw [body, body]
      refine Pair.bind hnodes ?_
      rintro ⟨ns, _⟩ ⟨ms, word⟩ s₁ s₁' ⟨⟨⟨hns, rfl⟩, h₁⟩, hstops⟩
      cases word with
      | some word => exact Pair.pure ⟨⟨⟨hns, rfl⟩, h₁⟩, hstops.2⟩
      | none =>
          obtain ⟨t, rest, hunread, heof⟩ := hstops
          have hended : P.Ahead .tag s₁.unread s₁'.unread :=
            h₁.ahead.of_eof (by simp [hunread, heof]) (.inr rfl)
          exact Pair.complain ⟨hended, h₁.fault, h₁.complaints, h₁.begun, h₁.markers, h₁.plain⟩
            (Pair.complaints hopening (by simp))

theorem branch_pair (hopening : P.tokens opening opening') (h : P.Beside .tag True s s')
    (hs : s.unread = t :: rest) (ht : t.kind.isInner) :
    P.Pair s s' (branch P.setting opening (fuel + 1)) (branch P.setting opening' fuel')
      (P.BehindTag SameKept) := by
  cases fuel' with
  | zero =>
      rw [branch.eq_def P.setting opening' 0]
      exact Pair.outOfFuel_second
  | succ fuel' =>
      rw [branch, branch]
      refine Pair.bind ((condition_pair h hs ht).recovering fun _ _ _ _ hr => hr.2) ?_
      rintro o o' s₁ s₁' ⟨h₁, ⟨rfl, rfl⟩ | ⟨e, e', rfl, rfl, he, -⟩⟩
      · exact ih.armsFrom fuel' _ _ _ _ s₁ s₁' hopening ⟨SameJoinedArms.nil, rfl, rfl, rfl⟩ h₁
      · exact ih.armsFrom fuel' _ _ _ _ s₁ s₁' hopening
          ⟨SameJoinedArms.nil, congrArg some he, rfl, rfl⟩ h₁

theorem armsFrom_pair {b b' : BranchSoFar} (hopening : P.tokens opening opening')
    (hb : SameBranch b b') (h : P.Beside .text True s s') :
    P.Pair s s' (armsFrom P.setting opening (fuel + 1) b) (armsFrom P.setting opening' fuel' b')
      (P.BehindTag SameKept) := by
  cases fuel' with
  | zero =>
      rw [armsFrom.eq_def P.setting opening' 0]
      exact Pair.outOfFuel_second
  | succ fuel' =>
      rw [armsFrom, armsFrom]
      refine Pair.bind (ih.body fuel' _ _ "if" _ s s' hopening h) ?_
      rintro ⟨ns, _⟩ ⟨ms, word⟩ s₁ s₁' ⟨⟨⟨hns, rfl⟩, h₁⟩, hclosing⟩
      refine Pair.spanFrom h₁ fun span span' => ?_
      have harms : SameJoinedArms (b.arms ++ [⟨b.condition, ns, span⟩])
          (b'.arms ++ [⟨b'.condition, ms, span'⟩]) := hb.arms.concat hb.condition hns
      dsimp only
      rw [hb.broken]
      split
      · refine Pair.bind (endTag_pair "endif" h₁ hclosing) fun _ _ s₂ s₂' h₂ => ?_
        split
        · exact Pair.pure ⟨SameJoined.refl [], h₂⟩
        · exact Pair.spanFrom h₂ fun _ _ => Pair.pure ⟨SameJoined.branch harms, h₂⟩
      · obtain ⟨v, w, more, hunread, hv, hw, -⟩ := hclosing
        refine Pair.enter h₁ hunread (.inl hv) fun next s₂ s₂' _ h₂ hs₂ => ?_
        refine Pair.bind (nextArm_pair ?_ h₂ hs₂ hw) ?_
        · exact ⟨harms, hb.condition, rfl, hb.seenElse⟩
        · rintro c c' s₃ s₃' ⟨hc, h₃⟩
          exact ih.armsFrom fuel' _ _ c c' s₃ s₃' hopening hc h₃

theorem loop_pair (hopening : P.tokens opening opening') (h : P.Beside .tag True s s')
    (hs : s.unread = t :: rest) (ht : t.kind.isInner) :
    P.Pair s s' (loop P.setting opening (fuel + 1)) (loop P.setting opening' fuel')
      (P.BehindTag SameKept) := by
  cases fuel' with
  | zero =>
      rw [loop.eq_def P.setting opening' 0]
      exact Pair.outOfFuel_second
  | succ fuel' =>
      rw [loop_succ, loop_succ]
      refine Pair.bind ((loopHeader_pair h hs ht).recovering fun _ _ _ _ hr => hr.2) ?_
      rintro header header' s₁ s₁' ⟨h₁, hheader⟩
      have hsame : header = none ∧ header' = none ∨ ∃ r r', header = some r ∧ header' = some r' ∧
          r'.1 = r.1 ∧ SameExpr r.2 r'.2 := by
        refine hheader.imp_right ?_
        rintro ⟨r, r', hr, hr', hrr, -⟩
        exact ⟨r, r', hr, hr', hrr⟩
      refine Pair.bind (ih.body fuel' _ _ "for" _ s₁ s₁' hopening h₁) ?_
      rintro ⟨ns, _⟩ ⟨ms, word⟩ s₂ s₂' ⟨⟨⟨hns, rfl⟩, h₂⟩, hclosing⟩
      dsimp only
      split
      · refine Pair.bind (endTag_pair "else" h₂ hclosing) fun _ _ s₃ s₃' h₃ => ?_
        refine Pair.bind (ih.body fuel' _ _ "for" _ s₃ s₃' hopening h₃) ?_
        rintro ⟨ns', _⟩ ⟨ms', word'⟩ s₄ s₄' ⟨⟨⟨hns', rfl⟩, h₄⟩, hclosing'⟩
        rw [pure_bind, pure_bind]
        exact loopEnd_pair hsame h₄ hclosing' hns hns'
      · rw [pure_bind, pure_bind]
        exact loopEnd_pair hsame h₂ hclosing hns (SameJoined.refl [])

theorem definition_pair (hopening : P.tokens opening opening') (h : P.Beside .tag True s s')
    (hs : s.unread = t :: rest) (ht : t.kind.isInner) :
    P.Pair s s' (definition P.setting opening (fuel + 1)) (definition P.setting opening' fuel')
      (P.BehindTag SameKept) := by
  cases fuel' with
  | zero =>
      rw [definition.eq_def P.setting opening' 0]
      exact Pair.outOfFuel_second
  | succ fuel' =>
      rw [definition, definition]
      refine Pair.bind
        ((definitionHeader_pair P.setting h hs ht).recovering fun _ _ _ _ hr => hr.2) ?_
      rintro header header' s₁ s₁' ⟨h₁, hheader⟩
      refine Pair.bind (ih.body fuel' _ _ "macro" _ s₁ s₁' hopening h₁) ?_
      rintro ⟨ns, _⟩ ⟨ms, word⟩ s₂ s₂' ⟨⟨⟨hns, rfl⟩, h₂⟩, hclosing⟩
      refine Pair.bind (endTag_pair "endmacro" h₂ hclosing) fun _ _ s₃ s₃' h₃ => ?_
      rcases hheader with ⟨rfl, rfl⟩ | ⟨⟨name, ps⟩, ⟨name', ps'⟩, rfl, rfl, ⟨hname, hps⟩, -⟩
      · exact Pair.pure ⟨SameJoined.refl [], h₃⟩
      · refine Pair.spanFrom h₃ fun _ _ => Pair.pure ⟨?_, h₃⟩
        show SameJoined _ [.definition ⟨name'.value, _, _, _, _⟩]
        rw [hname]
        exact SameJoined.definition hps hns

theorem callBlock_pair (hopening : P.tokens opening opening') (h : P.Beside .tag True s s')
    (hs : s.unread = t :: rest) (ht : t.kind.isInner) :
    P.Pair s s' (callBlock P.setting opening (fuel + 1)) (callBlock P.setting opening' fuel')
      (P.BehindTag SameKept) := by
  cases fuel' with
  | zero =>
      rw [callBlock.eq_def P.setting opening' 0]
      exact Pair.outOfFuel_second
  | succ fuel' =>
      rw [callBlock, callBlock]
      refine Pair.bind ((callHeader_pair h hs ht).recovering fun _ _ _ _ hr => hr.2) ?_
      rintro header header' s₁ s₁' ⟨h₁, hheader⟩
      refine Pair.bind (ih.body fuel' _ _ "call" _ s₁ s₁' hopening h₁) ?_
      rintro ⟨ns, _⟩ ⟨ms, word⟩ s₂ s₂' ⟨⟨⟨hns, rfl⟩, h₂⟩, hclosing⟩
      refine Pair.bind (endTag_pair "endcall" h₂ hclosing) fun _ _ s₃ s₃' h₃ => ?_
      rcases hheader with ⟨rfl, rfl⟩ | ⟨call, call', rfl, rfl, hcall, -⟩
      · exact Pair.pure ⟨SameJoined.refl [], h₃⟩
      · exact Pair.spanFrom h₃ fun _ _ => Pair.pure ⟨SameJoined.callBlock hcall hns, h₃⟩

end

/-! ## Every amount of fuel -/

theorem templatesPair (P : Pairing) (fuel : Nat) : TemplatesPair P fuel := by
  induction fuel using Nat.strongRecOn with
  | ind fuel ih =>
      cases fuel with
      | zero => exact templatesPair_zero P
      | succ fuel =>
          have hall : ∀ m ≤ fuel, TemplatesPair P m := fun m hm => ih m (Nat.lt_succ_of_le hm)
          have hone := hall fuel (Nat.le_refl _)
          exact
            { nodesFrom := fun closers _ _ _ _ _ _ hns h => nodesFrom_pair hall closers hns h
              tag := fun _ _ _ _ _ _ h hs ht => tag_pair hone h hs ht
              statement := fun _ _ _ _ _ ho h => statement_pair hone ho h
              body := fun _ _ _ construct closers _ _ ho h => body_pair hone construct closers ho h
              branch := fun _ _ _ _ _ _ _ ho h hs ht => branch_pair hone ho h hs ht
              armsFrom := fun _ _ _ _ _ _ _ ho hb h => armsFrom_pair hone ho hb h
              loop := fun _ _ _ _ _ _ _ ho h hs ht => loop_pair hone ho h hs ht
              definition := fun _ _ _ _ _ _ _ ho h hs ht => definition_pair hone ho h hs ht
              callBlock := fun _ _ _ _ _ _ _ ho h hs ht => callBlock_pair hone ho h hs ht }

/-! ## Whole templates -/

/-- What two runs complained of up to their ends: the same, and a fault behind it if one stopped
them. -/
inductive Reported (P : Pairing) : List Complaint → List Complaint → Prop
  | proper {cs cs'} (h : List.Forall₂ P.Complaints cs cs') : Reported P cs cs'
  | faulty {cs cs'} {f f' : LexicalFault} (h : List.Forall₂ P.Complaints cs cs')
      (hf : P.faults f f') : Reported P (cs ++ [⟨.lexical f.problem, f.span⟩])
        (cs' ++ [⟨.lexical f'.problem, f'.span⟩])

theorem templateBody_pair (h : P.Beside .text begun s s') :
    P.Pair s s' (templateBody P.setting) (templateBody P.setting) fun ns ms s₁ s₁' =>
      SameJoined ns ms ∧ P.Reported s₁.complaints s₁'.complaints := by
  have hnodes := (templatesPair P (templateFuel s.unread.length)).nodesFrom [] begun
    (templateFuel s'.unread.length) [] [] s s' (SameJoined.refl []) h
  have hstop : ∀ {s s₁ : State} {e : Stop},
      nodesFrom P.setting [] (templateFuel s.unread.length) [] s = .error e s₁ →
      (∀ f, e ≠ .lexical f) → templateBody P.setting s = .error e s₁ := by
    intro s s₁ e hrun he
    unfold templateBody
    rw [hrun]
    cases e with
    | lexical f => exact absurd rfl (he f)
    | _ => rfl
  have hok : ∀ {s s₁ : State} {r : List Node × Option String},
      nodesFrom P.setting [] (templateFuel s.unread.length) [] s = .ok r s₁ →
      templateBody P.setting s = .ok r.1 s₁ := by
    intro s s₁ r hrun
    unfold templateBody
    rw [hrun]
  cases hnodes with
  | ok hp hq hr => exact .ok (hok hp) (hok hq) ⟨hr.1.1, .proper hr.2.complaints⟩
  | complaint hp hq hc hs => exact .complaint (hstop hp (by simp)) (hstop hq (by simp)) hc hs
  | first hp he => exact .first (hstop hp fun _ hf => by rw [hf] at he; exact he) he
  | second hq he => exact .second (hstop hq fun _ hf => by rw [hf] at he; exact he) he
  | stop hp hq he hs =>
      cases he with
      | exhausted => exact .stop (hstop hp (by simp)) (hstop hq (by simp)) .exhausted hs
      | badNumber => exact .stop (hstop hp (by simp)) (hstop hq (by simp)) .badNumber hs
      | @lexical f f' hf =>
          -- a fault leaves no nodes, and is noted last
          have hfault : ∀ {s s₁ : State} {f : LexicalFault},
              nodesFrom P.setting [] (templateFuel s.unread.length) [] s = .error (.lexical f) s₁ →
              templateBody P.setting s = .ok [] { s₁ with
                fault := none
                complaints := s₁.complaints ++ [⟨.lexical f.problem, f.span⟩] } := by
            intro s s₁ f hrun
            unfold templateBody
            rw [hrun]
          exact .ok (hfault hp) (hfault hq) ⟨SameJoined.refl [], .faulty hs hf⟩

end Pairing

end TemplateCompiler.Parser
