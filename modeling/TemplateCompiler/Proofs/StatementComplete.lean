import TemplateCompiler.Proofs.HeaderComplete

/-!
# What the grammar of statements allows is read

On tokens that describe nodes the parser yields these nodes, up to spans, and has nothing to
complain about.

A list of nodes is read one node after the other, with the nodes so far as an accumulator. So what
is proved of the tokens of some nodes is that reading them comes to what follows, with these nodes
added.
-/

namespace TemplateCompiler.Parser

open Template (Expr Node bareNodes bareArms)

/-! ## Lists of nodes -/

/-- No marker stands in the tokens ahead, nor on the delimiter before them. -/
structure State.Plain (s : State) : Prop where
  unmarked : s.Unmarked
  ahead : ∀ t ∈ s.unread, t.kind.isOpener ∨ t.kind.isCloser → t.value = ""

theorem State.Plain.past {s s' : State} {us : List Token} (h : s.Plain) (hp : s.Past us s') :
    s'.Plain where
  unmarked := hp.unmarked h.unmarked fun t ht hcloser =>
    h.ahead t (hp.ahead ▸ List.mem_append_left _ ht) (.inr hcloser)
  ahead t ht := h.ahead t (hp.ahead ▸ List.mem_append_right _ ht)

/-- Between `s` and `s'` nothing was wrong, and behind `s'` are `rest`. -/
def State.Comes (s : State) (rest : List Token) (s' : State) : Prop :=
  ∃ us, s.Past us s' ∧ s'.unread = rest

namespace State.Comes

variable {s s' s'' : State} {us rest rest' : List Token}

theorem of_past (hp : s.Past us s') (hs : s.unread = us ++ rest) : s.Comes rest s' :=
  ⟨us, hp, hp.unread_eq hs⟩

theorem trans (h : s.Comes rest s') (h' : s'.Comes rest' s'') : s.Comes rest' s'' := by
  obtain ⟨us, hp, -⟩ := h
  obtain ⟨vs, hp', hunread⟩ := h'
  exact ⟨us ++ vs, hp.trans hp', hunread⟩

theorem unread (h : s.Comes rest s') : s'.unread = rest := by
  obtain ⟨us, -, hunread⟩ := h
  exact hunread

theorem plain (h : s.Comes rest s') (hs : s.Plain) : s'.Plain := by
  obtain ⟨us, hp, -⟩ := h
  exact hs.past hp

end State.Comes

/-- Reading such tokens gives what they describe, added to what was read before. -/
def Passage.IsRead (setting : Setting) (ts : List Token) : Passage → Prop
  | .nodes ns => ∀ (closers : List String) (rest : List Token)
      (Q : List Node × Option String → State → Prop) (s : State) (nodes : List Node),
      (∀ word ∈ closers, word ∈ closingWords) → s.Plain → rest ≠ [] → s.unread = ts ++ rest →
      (∀ new fuel s', bareNodes new = ns → s.Comes rest s' →
        Yields s' (nodesFrom setting closers fuel (new.reverse ++ nodes)) Q) →
      ∀ fuel, Yields s (nodesFrom setting closers fuel nodes) Q
  | .arms condition arms => ∀ (opening : Token) (fuel : Nat) (b : BranchSoFar) (rest : List Token)
      (s : State), b.seenElse = false → b.broken = false → b.condition.map Expr.bare = condition →
      s.Plain → rest ≠ [] → s.unread = ts ++ rest →
      Yields s (armsFrom setting opening fuel b) fun o s' => s.Comes rest s' ∧
        ∃ n, o = some n ∧ n.bare = .branch (bareArms b.arms ++ arms) .blank

section

variable {setting : Setting} {s : State} {ts us rest : List Token} {g last : Tag} {word : String}
  {closers : List String} {nodes : List Node} {fuel : Nat}

/-- What stands behind a node is read as if the node had been read before. -/
theorem nodesFrom_cons {b : Node} {ns : List Node} {Q : List Node × Option String → State → Prop}
    (ih : Passage.IsRead setting ts (.nodes ns)) (hclosers : ∀ word ∈ closers, word ∈ closingWords)
    (hplain : s.Plain) (hne : rest ≠ [])
    (hnext : ∀ new fuel s', bareNodes new = b :: ns → s.Comes rest s' →
      Yields s' (nodesFrom setting closers fuel (new.reverse ++ nodes)) Q)
    {n : Node} {s' : State} (hn : n.bare = b) (hc : s.Comes (ts ++ rest) s') (fuel : Nat) :
    Yields s' (nodesFrom setting closers fuel (n :: nodes)) Q := by
  refine ih closers rest Q s' (n :: nodes) hclosers (hc.plain hplain) hne hc.unread ?_ fuel
  intro new fuel s'' hnew hc'
  have h := hnext (n :: new) fuel s'' (by rw [bareNodes, hn, hnew]) (hc.trans hc')
  simpa using h

/-- Text without markers around it is a node as it stands. -/
theorem nodesFrom_text_yields {t : Token} {Q : List Node × Option String → State → Prop}
    (hset : setting.whitespace = .preserve) (ht : t.kind = .text) (hvalue : t.value ≠ "")
    (hplain : s.Plain) (hne : us ≠ []) (hs : s.unread = t :: us)
    (h : ∀ n fuel s', n.bare = .text t.value .blank → s.Comes us s' →
      Yields s' (nodesFrom setting closers fuel (n :: nodes)) Q) :
    Yields s (nodesFrom setting closers fuel nodes) Q := by
  obtain ⟨u, more, rfl⟩ := List.exists_cons_of_ne_nil hne
  cases fuel with
  | zero =>
      rw [nodesFrom]
      exact Yields.outOfFuel
  | succ fuel =>
      rw [nodesFrom]
      refine Yields.peek hs ?_
      simp only [ht]
      refine Yields.bind (text_yields setting hs ht) ?_
      rintro o s₁ ⟨hp₁, ho⟩
      obtain rfl := ho hset hplain.unmarked
        (fun hopen => hplain.ahead u (by simp [hs]) (.inl hopen)) hvalue
      exact h _ fuel s₁ rfl (.of_past hp₁ hs)

/-- A comment leaves nothing behind. -/
theorem nodesFrom_comment_yields {t body close : Token}
    {Q : List Node × Option String → State → Prop} (ht : t.kind = .commentStart)
    (hbody : body.kind = .comment) (hclose : close.kind = .commentEnd)
    (hs : s.unread = t :: body :: close :: us)
    (h : ∀ fuel s', s.Comes us s' → Yields s' (nodesFrom setting closers fuel nodes) Q) :
    Yields s (nodesFrom setting closers fuel nodes) Q := by
  cases fuel with
  | zero =>
      rw [nodesFrom]
      exact Yields.outOfFuel
  | succ fuel =>
      rw [nodesFrom]
      refine Yields.peek hs ?_
      simp only [ht]
      exact Yields.bind (comment_yields hs ht hbody hclose) fun _ s₁ hp₁ =>
        h fuel s₁ (.of_past hp₁ hs)

/-- A tag that does not end the list of nodes. -/
theorem nodesFrom_tag_yields {t : Token} {b : Node} {Q : List Node × Option String → State → Prop}
    (hs : s.unread = t :: us) (ht : t.kind = .exprStart ∨ t.kind = .blockStart)
    (hword : closingWord? closers t s = .ok none s)
    (htag : ∀ fuel, Yields s (tag setting fuel) fun o s' => s.Comes rest s' ∧
      ∃ n, o = some n ∧ n.bare = b)
    (h : ∀ n fuel s', n.bare = b → s.Comes rest s' →
      Yields s' (nodesFrom setting closers fuel (n :: nodes)) Q) :
    Yields s (nodesFrom setting closers fuel nodes) Q := by
  cases fuel with
  | zero =>
      rw [nodesFrom]
      exact Yields.outOfFuel
  | succ fuel =>
      rw [nodesFrom]
      refine Yields.peek hs ?_
      rcases ht with ht | ht
      all_goals
        simp only [ht]
        refine Yields.step hword ?_
        refine Yields.bind (htag fuel).recovering ?_
        rintro _ s' ⟨_, rfl, hc, n, rfl, hn⟩
        exact h n fuel s' hn hc

/-- The keyword of a block tag shows whether it ends the list of nodes. -/
theorem closingWord?_holds (hg : g.Holds word us) (hs : s.unread = g.tokens ++ rest) :
    closingWord? closers g.opening s = .ok (if word ∈ closers then some word else none) s := by
  obtain ⟨w, hw, rfl, htokens⟩ := hg.tokens_eq
  rw [htokens] at hs
  unfold closingWord?
  rw [if_pos hg.opening]
  rw [bind_apply_of_ok (peekSecond_eq hs (by simp [hg.opening]))]
  simp [hw, Pure.pure, EStateM.pure]

/-- The word of a block tag decides what is read behind it. -/
theorem tag_yields {p : Nat → Parser (Option Node)} {Q : Option Node → State → Prop}
    (hp : (word, p) ∈ [("if", branch setting g.opening), ("for", loop setting g.opening),
      ("macro", definition setting g.opening), ("call", callBlock setting g.opening),
      ("include", fun _ => some <$> inclusion setting g.opening),
      ("set", fun _ => some <$> assignment setting g.opening),
      ("let", fun _ => some <$> assignment setting g.opening)])
    (hg : g.Holds word us) (hs : s.unread = g.tokens ++ rest)
    (h : ∀ fuel w s', w.kind = .keyword → s.Past [g.opening] s' →
      s'.unread = w :: (us ++ g.closing :: rest) → Yields s' (p fuel) Q) :
    Yields s (tag setting fuel) Q := by
  obtain ⟨w, hw, hvalue, htokens⟩ := hg.tokens_eq
  have hs' : s.unread = g.opening :: w :: (us ++ g.closing :: rest) := by
    rw [hs, htokens]
    simp
  cases fuel with
  | zero =>
      rw [tag]
      exact Yields.outOfFuel
  | succ fuel =>
      rw [tag]
      refine Yields.peek hs' ?_
      simp only [hg.opening]
      refine Yields.advance hs' (by simp [hg.opening]) fun s₁ hp₁ => ?_
      have hs₁ := hp₁.rest_eq hs'
      cases fuel with
      | zero =>
          rw [statement]
          exact Yields.outOfFuel
      | succ fuel =>
          rw [statement]
          refine Yields.peek hs₁ ?_
          have hstatement := h fuel w s₁ hw hp₁ hs₁
          simp only [List.mem_cons, Prod.mk.injEq, List.not_mem_nil, or_false] at hp
          rcases hp with ⟨rfl, rfl⟩ | ⟨rfl, rfl⟩ | ⟨rfl, rfl⟩ | ⟨rfl, rfl⟩ | ⟨rfl, rfl⟩ |
            ⟨rfl, rfl⟩ | ⟨rfl, rfl⟩ <;> simp only [hw, hvalue] <;> exact hstatement

theorem endTag_yields (hg : g.Holds word []) (hs : s.unread = g.tokens ++ rest) :
    Yields s (endTag word) fun _ s' => s.Past g.tokens s' := by
  obtain ⟨w, hw, hvalue, htokens⟩ := hg.tokens_eq
  rw [htokens] at hs ⊢
  refine Yields.advance hs (by simp [hg.opening]) fun s₁ hp₁ => ?_
  have hs₁ := hp₁.rest_eq hs
  refine Yields.expectKeyword hs₁ (by simp [Token.isKeyword, hw, hvalue]) fun s₂ hp₂ => ?_
  have hs₂ := hp₂.rest_eq hs₁
  exact Yields.bind (expectBlockEnd_yields hs₂ hg.closing) fun _ s₃ hp₃ =>
    Yields.pure (hp₁.trans (hp₂.trans hp₃))

theorem body_yields {opening : Token} {construct : String} {b : List Node}
    (hb : Passage.IsRead setting ts (.nodes b)) (hlast : last.Holds word us)
    (hword : word ∈ closers) (hclosers : ∀ word ∈ closers, word ∈ closingWords) (hplain : s.Plain)
    (hs : s.unread = ts ++ (last.tokens ++ rest)) :
    Yields s (body setting opening construct closers fuel) fun r s' =>
      s.Comes (last.tokens ++ rest) s' ∧ bareNodes r.1 = b ∧ r.2 = word := by
  cases fuel with
  | zero =>
      rw [body]
      exact Yields.outOfFuel
  | succ fuel =>
      have hnodes : Yields s (nodesFrom setting closers fuel []) fun r s' =>
          s.Comes (last.tokens ++ rest) s' ∧ bareNodes r.1 = b ∧ r.2 = some word := by
        refine hb closers _ _ s [] hclosers hplain (by simp [Tag.tokens]) hs ?_ fuel
        intro new fuel s' hnew hc
        cases fuel with
        | zero =>
            rw [nodesFrom]
            exact Yields.outOfFuel
        | succ fuel =>
            rw [nodesFrom]
            refine Yields.peek (last.tokens_append rest ▸ hc.unread) ?_
            simp only [hlast.opening]
            refine Yields.step (closingWord?_holds hlast hc.unread) ?_
            rw [if_pos hword]
            exact Yields.pure ⟨hc, by simpa using hnew, rfl⟩
      rw [body]
      refine Yields.bind hnodes ?_
      rintro ⟨_, _⟩ s' ⟨hc, hb', rfl⟩
      exact Yields.pure ⟨hc, hb', rfl⟩

end

/-! ## Blocks -/

section

variable {setting : Setting} {s : State} {us vs ws os rest : List Token} {opening w close : Token}
  {middle last : Tag} {body otherwise : List Node} {fuel : Nat}

/-- The end of a block, and the node that it makes up. -/
theorem endTag_bind_yields {word : String} {b : Node} {make : Span → Node}
    (hlast : last.Holds word []) (hs : s.unread = last.tokens ++ rest) (hne : rest ≠ [])
    (hmake : ∀ span, (make span).bare = b) :
    Yields s (do
      endTag word
      let span ← spanFrom setting.unit opening.span.start
      return some (make span)) fun o s' => s.Comes rest s' ∧ ∃ n, o = some n ∧ n.bare = b := by
  refine Yields.bind (endTag_yields hlast hs) fun _ s₁ hp₁ => ?_
  refine Yields.spanFrom (by rwa [hp₁.unread_eq hs]) fun span => ?_
  exact Yields.pure ⟨.of_past hp₁ hs, make span, rfl, hmake span⟩

theorem loop_yields {into : Token} {targets : List String} {e : Expr} (hw : w.kind = .keyword)
    (ht : Names us targets) (hinto : into.lexeme = (.keyword, "in"))
    (he : Denotes vs (.expr .disjunction e)) (hclose : close.kind = .blockEnd)
    (hb : Passage.IsRead setting ws (.nodes body)) (hlast : last.Holds "endfor" [])
    (hplain : s.Plain) (hne : rest ≠ [])
    (hs : s.unread = w :: ((us ++ into :: vs) ++ close :: (ws ++ (last.tokens ++ rest)))) :
    Yields s (loop setting opening fuel) fun o s' => s.Comes rest s' ∧
      ∃ n, o = some n ∧ n.bare = .loop targets e body [] .blank := by
  cases fuel with
  | zero =>
      rw [loop]
      exact Yields.outOfFuel
  | succ fuel =>
      rw [loop]
      have hheader := loopHeader_yields (by simpa using hs) hw ht hinto he hclose
      refine Yields.bind hheader.recovering ?_
      rintro _ s₁ ⟨⟨_, iterable⟩, rfl, hp₁, rfl, hiterable⟩
      have hc₁ : s.Comes _ s₁ := .of_past hp₁ (by simpa using hs)
      refine Yields.bind (body_yields hb hlast (by decide) (by decide) (hc₁.plain hplain)
        hc₁.unread) ?_
      rintro ⟨nodes, _⟩ s₂ ⟨hc₂, hnodes, rfl⟩
      dsimp only
      rw [if_neg (by decide), pure_bind]
      refine (endTag_bind_yields hlast hc₂.unread hne fun span => ?_).imp
        fun o s₃ h => ⟨hc₁.trans (hc₂.trans h.1), h.2⟩
      simp only [Node.bare, hnodes, hiterable, bareNodes]

theorem loopElse_yields {into : Token} {targets : List String} {e : Expr} (hw : w.kind = .keyword)
    (ht : Names us targets) (hinto : into.lexeme = (.keyword, "in"))
    (he : Denotes vs (.expr .disjunction e)) (hclose : close.kind = .blockEnd)
    (hb : Passage.IsRead setting ws (.nodes body)) (hmiddle : middle.Holds "else" [])
    (ho : Passage.IsRead setting os (.nodes otherwise)) (hlast : last.Holds "endfor" [])
    (hplain : s.Plain) (hne : rest ≠ [])
    (hs : s.unread = w :: ((us ++ into :: vs) ++ close ::
      (ws ++ (middle.tokens ++ (os ++ (last.tokens ++ rest)))))) :
    Yields s (loop setting opening fuel) fun o s' => s.Comes rest s' ∧
      ∃ n, o = some n ∧ n.bare = .loop targets e body otherwise .blank := by
  cases fuel with
  | zero =>
      rw [loop]
      exact Yields.outOfFuel
  | succ fuel =>
      rw [loop]
      have hheader := loopHeader_yields (by simpa using hs) hw ht hinto he hclose
      refine Yields.bind hheader.recovering ?_
      rintro _ s₁ ⟨⟨_, iterable⟩, rfl, hp₁, rfl, hiterable⟩
      have hc₁ : s.Comes _ s₁ := .of_past hp₁ (by simpa using hs)
      refine Yields.bind (body_yields hb hmiddle (by decide) (by decide) (hc₁.plain hplain)
        hc₁.unread) ?_
      rintro ⟨nodes, _⟩ s₂ ⟨hc, hnodes, rfl⟩
      have hc₂ := hc₁.trans hc
      dsimp only
      rw [if_pos rfl]
      refine Yields.bind (endTag_yields hmiddle hc₂.unread) fun _ s₃ hp₃ => ?_
      have hc₃ := hc₂.trans (.of_past hp₃ hc₂.unread)
      refine Yields.bind (body_yields ho hlast (by decide) (by decide) (hc₃.plain hplain)
        hc₃.unread) ?_
      rintro ⟨others, _⟩ s₄ ⟨hc, hothers, rfl⟩
      have hc₄ := hc₃.trans hc
      rw [pure_bind]
      refine (endTag_bind_yields hlast hc₄.unread hne fun span => ?_).imp
        fun o s₅ h => ⟨hc₄.trans h.1, h.2⟩
      simp only [Node.bare, hnodes, hothers, hiterable]

theorem definition_yields {name paren closing : Token} {params : List (Parameter Expr)}
    (hw : w.kind = .keyword) (hname : name.kind = .identifier) (hopen : paren.kind = .leftParen)
    (hps : Declares us params) (hclosing : closing.kind = .rightParen)
    (hclose : close.kind = .blockEnd) (hb : Passage.IsRead setting ws (.nodes body))
    (hlast : last.Holds "endmacro" []) (hplain : s.Plain) (hne : rest ≠ [])
    (hs : s.unread = w :: ((name :: paren :: (us ++ [closing])) ++ close ::
      (ws ++ (last.tokens ++ rest)))) :
    Yields s (definition setting opening fuel) fun o s' => s.Comes rest s' ∧
      ∃ n, o = some n ∧ n.bare = .definition ⟨name.value, params, body, .blank, .blank⟩ := by
  cases fuel with
  | zero =>
      rw [definition]
      exact Yields.outOfFuel
  | succ fuel =>
      rw [definition]
      have hheader := definitionHeader_yields setting (by simpa using hs) hw hname hopen hps
        hclosing hclose
      refine Yields.bind hheader.recovering ?_
      rintro _ s₁ ⟨⟨title, read⟩, rfl, hp₁, htitle, hread⟩
      dsimp only at htitle hread
      have hc₁ : s.Comes _ s₁ := .of_past hp₁ (by simpa using hs)
      refine Yields.bind (body_yields hb hlast (by decide) (by decide) (hc₁.plain hplain)
        hc₁.unread) ?_
      rintro ⟨nodes, _⟩ s₂ ⟨hc, hnodes, rfl⟩
      have hc₂ := hc₁.trans hc
      refine (endTag_bind_yields hlast hc₂.unread hne fun span => ?_).imp
        fun o s₃ h => ⟨hc₂.trans h.1, h.2⟩
      simp only [Node.bare, hnodes, hread, htitle]

theorem callBlock_yields {name paren closing : Token} {args : List Expr}
    {named : List (NamedArgument Expr)} (hw : w.kind = .keyword) (hname : name.kind = .identifier)
    (hopen : paren.kind = .leftParen) (ha : Denotes us (.arguments args named))
    (hclosing : closing.kind = .rightParen) (hclose : close.kind = .blockEnd)
    (hb : Passage.IsRead setting ws (.nodes body)) (hlast : last.Holds "endcall" [])
    (hplain : s.Plain) (hne : rest ≠ [])
    (hs : s.unread = w :: ((name :: paren :: (us ++ [closing])) ++ close ::
      (ws ++ (last.tokens ++ rest)))) :
    Yields s (callBlock setting opening fuel) fun o s' => s.Comes rest s' ∧
      ∃ n, o = some n ∧
        n.bare = .callBlock ⟨name.value, args, named, .blank, .blank⟩ body .blank := by
  cases fuel with
  | zero =>
      rw [callBlock]
      exact Yields.outOfFuel
  | succ fuel =>
      rw [callBlock]
      have hheader := callHeader_yields (by simpa using hs) hw hname hopen ha hclosing hclose
      refine Yields.bind hheader.recovering ?_
      rintro _ s₁ ⟨call, rfl, hp₁, hcall⟩
      have hc₁ : s.Comes _ s₁ := .of_past hp₁ (by simpa using hs)
      refine Yields.bind (body_yields hb hlast (by decide) (by decide) (hc₁.plain hplain)
        hc₁.unread) ?_
      rintro ⟨nodes, _⟩ s₂ ⟨hc, hnodes, rfl⟩
      have hc₂ := hc₁.trans hc
      refine (endTag_bind_yields hlast hc₂.unread hne fun span => ?_).imp
        fun o s₃ h => ⟨hc₂.trans h.1, h.2⟩
      simp only [Node.bare, hnodes, hcall]

theorem branch_yields {c : Expr} {arms : List (Arm Node)} (hw : w.kind = .keyword)
    (hc : Denotes us (.expr .disjunction c)) (hclose : close.kind = .blockEnd)
    (ha : Passage.IsRead setting vs (.arms (some c) arms)) (hplain : s.Plain) (hne : rest ≠ [])
    (hs : s.unread = w :: (us ++ close :: (vs ++ rest))) :
    Yields s (branch setting opening fuel) fun o s' => s.Comes rest s' ∧
      ∃ n, o = some n ∧ n.bare = .branch arms .blank := by
  cases fuel with
  | zero =>
      rw [branch]
      exact Yields.outOfFuel
  | succ fuel =>
      rw [branch]
      refine Yields.bind (condition_yields hs hw hc hclose).recovering ?_
      rintro _ s₁ ⟨e, rfl, hp₁, he⟩
      have hc₁ : s.Comes _ s₁ := .of_past hp₁ (by simpa using hs)
      have harms := ha opening fuel ⟨[], some e, opening.span.start, false, false⟩ rest s₁ rfl rfl
        (congrArg some he) (hc₁.plain hplain) hne hc₁.unread
      exact harms.imp fun o s₂ h => ⟨hc₁.trans h.1, h.2⟩

/-! ## Arms -/

/-- The last body of a branch. -/
theorem endBranch_yields {b : BranchSoFar} (hb : Passage.IsRead setting ws (.nodes body))
    (hlast : last.Holds "endif" []) (hbroken : b.broken = false) (hplain : s.Plain)
    (hne : rest ≠ []) (hs : s.unread = ws ++ (last.tokens ++ rest)) :
    Yields s (armsFrom setting opening fuel b) fun o s' => s.Comes rest s' ∧
      ∃ n, o = some n ∧ n.bare =
        .branch (bareArms b.arms ++ [⟨b.condition.map Expr.bare, body, .blank⟩]) .blank := by
  cases fuel with
  | zero =>
      rw [armsFrom]
      exact Yields.outOfFuel
  | succ fuel =>
      rw [armsFrom]
      refine Yields.bind (body_yields hb hlast (by decide) (by decide) hplain hs) ?_
      rintro ⟨nodes, _⟩ s₁ ⟨hc₁, hnodes, rfl⟩
      refine Yields.spanFrom (by rw [hc₁.unread]; simp [Tag.tokens]) fun armSpan => ?_
      dsimp only
      rw [if_pos rfl]
      simp only [hbroken, Bool.false_eq_true, if_false]
      refine (endTag_bind_yields hlast hc₁.unread hne fun span => ?_).imp
        fun o s₂ h => ⟨hc₁.trans h.1, h.2⟩
      simp [Node.bare, bareArms, hnodes]

/-- The header of a further arm with a condition. -/
theorem nextArm_yields {b : BranchSoFar} {c : Expr} (hw : w.kind = .keyword)
    (hvalue : w.value = "elif") (hc : Denotes us (.expr .disjunction c))
    (hclose : close.kind = .blockEnd) (hseen : b.seenElse = false)
    (hs : s.unread = w :: (us ++ close :: rest)) :
    Yields s (nextArm b) fun b' s' => s.Comes rest s' ∧ b'.arms = b.arms ∧
      b'.condition.map Expr.bare = some c ∧ b'.broken = b.broken ∧ b'.seenElse = false := by
  rw [nextArm]
  refine Yields.peek hs ?_
  rw [if_neg (by simp [hseen]), if_neg (by simp [Token.isKeyword, hvalue])]
  refine Yields.bind (condition_yields hs hw hc hclose).recovering ?_
  rintro _ s₁ ⟨e, rfl, hp₁, he⟩
  exact Yields.pure ⟨.of_past hp₁ (by simpa using hs), rfl, congrArg some he, by simp, hseen⟩

/-- The header of the arm for all other cases. -/
theorem lastArm_yields {b : BranchSoFar} (hw : w.kind = .keyword) (hvalue : w.value = "else")
    (hclose : close.kind = .blockEnd) (hseen : b.seenElse = false)
    (hs : s.unread = w :: close :: rest) :
    Yields s (nextArm b) fun b' s' => s.Comes rest s' ∧ b'.arms = b.arms ∧ b'.condition = none ∧
      b'.broken = b.broken := by
  rw [nextArm]
  refine Yields.peek hs ?_
  rw [if_neg (by simp [hseen]), if_pos (by simp [Token.isKeyword, hw, hvalue])]
  refine Yields.advance hs (by simp [hw]) fun s₁ hp₁ => ?_
  have hs₁ := hp₁.rest_eq hs
  refine Yields.bind (expectBlockEnd_yields hs₁ hclose).recovering ?_
  rintro _ s₂ ⟨_, rfl, hp₂⟩
  exact Yields.pure ⟨.of_past (hp₁.trans hp₂) hs, rfl, rfl, rfl⟩

/-- A body of a branch with a further arm behind it. -/
theorem armsFrom_yields {b : BranchSoFar} {word : String} {Q : Option Node → State → Prop}
    (hb : Passage.IsRead setting ws (.nodes body)) (hmiddle : middle.Holds word us)
    (hword : word = "elif" ∨ word = "else") (hplain : s.Plain)
    (hs : s.unread = ws ++ (middle.tokens ++ rest))
    (h : ∀ fuel b' w s', w.kind = .keyword → w.value = word →
      s.Comes (w :: (us ++ middle.closing :: rest)) s' →
      bareArms b'.arms = bareArms b.arms ++ [⟨b.condition.map Expr.bare, body, .blank⟩] →
      b'.broken = b.broken → b'.seenElse = b.seenElse →
      Yields s' (nextArm b' >>= armsFrom setting opening fuel) Q) :
    Yields s (armsFrom setting opening fuel b) Q := by
  cases fuel with
  | zero =>
      rw [armsFrom]
      exact Yields.outOfFuel
  | succ fuel =>
      have hcloser : word ∈ ["elif", "else", "endif"] := by
        rcases hword with rfl | rfl <;> decide
      rw [armsFrom]
      refine Yields.bind (body_yields hb hmiddle hcloser (by decide) hplain hs) ?_
      rintro ⟨nodes, _⟩ s₁ ⟨hc₁, hnodes, rfl⟩
      obtain ⟨w, hw, hvalue, htokens⟩ := hmiddle.tokens_eq
      have hs₁ : s₁.unread = middle.opening :: w :: (us ++ middle.closing :: rest) := by
        rw [hc₁.unread, htokens]
        simp
      refine Yields.spanFrom (by simp [hs₁]) fun armSpan => ?_
      dsimp only
      rw [if_neg (by rcases hword with rfl | rfl <;> decide)]
      refine Yields.advance hs₁ (by simp [hmiddle.opening]) fun s₂ hp₂ => ?_
      refine h fuel _ w s₂ hw hvalue (hc₁.trans (.of_past hp₂ hs₁)) ?_ rfl rfl
      simp [bareArms, ← hnodes]

end

/-! ## Whole sequences -/

section

variable {setting : Setting} {s : State} {ts us vs rest : List Token} {closers : List String}
  {nodes ns : List Node} {b : Node} {Q : List Node × Option String → State → Prop}

/-- A block tag with what belongs to it, and what stands behind. -/
theorem nodesFrom_statement_yields {g : Tag} {word : String} {p : Nat → Parser (Option Node)}
    (hp : (word, p) ∈ [("if", branch setting g.opening), ("for", loop setting g.opening),
      ("macro", definition setting g.opening), ("call", callBlock setting g.opening),
      ("include", fun _ => some <$> inclusion setting g.opening),
      ("set", fun _ => some <$> assignment setting g.opening),
      ("let", fun _ => some <$> assignment setting g.opening)])
    (hg : g.Holds word us) (ih : Passage.IsRead setting ts (.nodes ns))
    (hclosers : ∀ word ∈ closers, word ∈ closingWords) (hplain : s.Plain) (hne : rest ≠ [])
    (hs : s.unread = g.tokens ++ vs)
    (hnext : ∀ new fuel s', bareNodes new = b :: ns → s.Comes rest s' →
      Yields s' (nodesFrom setting closers fuel (new.reverse ++ nodes)) Q)
    (hstatement : ∀ fuel w s', w.kind = .keyword → s'.Plain →
      s'.unread = w :: (us ++ g.closing :: vs) →
      Yields s' (p fuel) fun o s'' => s'.Comes (ts ++ rest) s'' ∧ ∃ n, o = some n ∧ n.bare = b)
    (fuel : Nat) : Yields s (nodesFrom setting closers fuel nodes) Q := by
  have hopens : word ∉ closers := by
    refine fun hmem => absurd (hclosers word hmem) ?_
    simp only [List.mem_cons, Prod.mk.injEq, List.not_mem_nil, or_false] at hp
    rcases hp with ⟨rfl, -⟩ | ⟨rfl, -⟩ | ⟨rfl, -⟩ | ⟨rfl, -⟩ | ⟨rfl, -⟩ | ⟨rfl, -⟩ | ⟨rfl, -⟩ <;>
      decide
  have hword := @closingWord?_holds s us vs g word closers hg hs
  rw [if_neg hopens] at hword
  refine nodesFrom_tag_yields (g.tokens_append _ ▸ hs) (.inr hg.opening) hword (fun fuel => ?_)
    fun n fuel s' hn hc => nodesFrom_cons ih hclosers hplain hne hnext hn hc fuel
  refine tag_yields hp hg hs fun fuel w s₁ hw hp₁ hs₁ => ?_
  refine (hstatement fuel w s₁ hw (hplain.past hp₁) hs₁).imp fun o s₂ ⟨hc₂, hn⟩ => ⟨?_, hn⟩
  exact State.Comes.trans ⟨_, hp₁, hs₁⟩ hc₂

end

theorem describes_isRead {setting : Setting} (hset : setting.whitespace = .preserve)
    {ts : List Token} {x : Passage} (h : Describes ts x) : Passage.IsRead setting ts x := by
  induction h with
  | done =>
      intro closers rest Q s nodes _ _ _ hs hnext fuel
      exact hnext [] fuel s rfl (.of_past (.refl s) hs)
  | @text t ts ns ht hvalue _ ih =>
      intro closers rest Q s nodes hclosers hplain hne hs hnext fuel
      exact nodesFrom_text_yields hset ht hvalue hplain (by simp [hne]) hs fun n fuel s' hn hc =>
        nodesFrom_cons ih hclosers hplain hne hnext hn hc fuel
  | comment hopen hbody hclose _ ih =>
      intro closers rest Q s nodes hclosers hplain hne hs hnext fuel
      exact nodesFrom_comment_yields hopen hbody hclose hs fun fuel s₁ hc₁ =>
        ih closers rest Q s₁ nodes hclosers (hc₁.plain hplain) hne hc₁.unread
          (fun new fuel s' hnew hc => hnext new fuel s' hnew (hc₁.trans hc)) fuel
  | @output opening closing us ts e ns hopen he hclose _ ih =>
      intro closers rest Q s nodes hclosers hplain hne hs hnext fuel
      have hs' : s.unread = opening :: (us ++ closing :: (ts ++ rest)) := by simpa using hs
      refine nodesFrom_tag_yields hs' (.inl hopen) (closingWord?_eq_none (by simp [hopen]))
        (fun fuel => ?_)
        fun n fuel s' hn hc => nodesFrom_cons ih hclosers hplain hne hnext hn hc fuel
      refine (tag_yields_output setting hs' hopen he hclose (by simp [hne]) fuel).imp ?_
      rintro o s₁ ⟨hp₁, e', span, rfl, rfl⟩
      exact ⟨.of_past hp₁ (by simpa using hs), _, rfl, rfl⟩
  | @inclusion g _ _ _ hg hpath _ ih =>
      intro closers rest Q s nodes hclosers hplain hne hs hnext
      refine nodesFrom_statement_yields (p := fun _ => some <$> inclusion setting g.opening)
        (by simp) hg ih hclosers hplain hne (by simpa using hs) hnext
        fun fuel w s₁ hw hplain₁ hs₁ => ?_
      refine Yields.map (inclusion_yields setting hs₁ hw hpath hg.closing (by simp [hne])) ?_
      exact fun n s₂ h => ⟨.of_past h.1 hs₁, n, rfl, h.2⟩
  | @assignment g _ _ _ _ _ _ _ hword hg hname hequals he _ ih =>
      intro closers rest Q s nodes hclosers hplain hne hs hnext
      refine nodesFrom_statement_yields (p := fun _ => some <$> assignment setting g.opening)
        (by rcases hword with rfl | rfl <;> simp) hg ih hclosers hplain hne (by simpa using hs)
        hnext fun fuel w s₁ hw hplain₁ hs₁ => ?_
      refine Yields.map
        (assignment_yields setting hs₁ hw hname hequals he hg.closing (by simp [hne])) ?_
      exact fun n s₂ h => ⟨.of_past h.1 (by simpa using hs₁), n, rfl, h.2⟩
  | @branch g _ _ _ _ _ _ hg hc _ _ iha ih =>
      intro closers rest Q s nodes hclosers hplain hne hs hnext
      exact nodesFrom_statement_yields (p := branch setting g.opening) (by simp) hg ih hclosers
        hplain hne (by simpa using hs) hnext fun fuel w s₁ hw hplain₁ hs₁ =>
        branch_yields hw hc hg.closing iha hplain₁ (by simp [hne]) hs₁
  | @loop g _ _ _ _ _ _ _ _ _ _ hg ht hinto he _ hlast _ ihb ih =>
      intro closers rest Q s nodes hclosers hplain hne hs hnext
      exact nodesFrom_statement_yields (p := loop setting g.opening) (by simp) hg ih hclosers
        hplain hne (by simpa using hs) hnext fun fuel w s₁ hw hplain₁ hs₁ =>
        loop_yields hw ht hinto he hg.closing ihb hlast hplain₁ (by simp [hne]) hs₁
  | @loopElse g _ _ _ _ _ _ _ _ _ _ _ _ _ hg ht hinto he _ hmiddle _ hlast _ ihb iho ih =>
      intro closers rest Q s nodes hclosers hplain hne hs hnext
      exact nodesFrom_statement_yields (p := loop setting g.opening) (by simp) hg ih hclosers
        hplain hne (by simpa using hs) hnext fun fuel w s₁ hw hplain₁ hs₁ =>
        loopElse_yields hw ht hinto he hg.closing ihb hmiddle iho hlast hplain₁ (by simp [hne]) hs₁
  | @definition g _ _ _ _ _ _ _ _ _ _ hg hname hopen hp hclose _ hlast _ ihb ih =>
      intro closers rest Q s nodes hclosers hplain hne hs hnext
      exact nodesFrom_statement_yields (p := definition setting g.opening) (by simp) hg ih hclosers
        hplain hne (by simpa using hs) hnext fun fuel w s₁ hw hplain₁ hs₁ =>
        definition_yields hw hname hopen hp hclose hg.closing ihb hlast hplain₁ (by simp [hne]) hs₁
  | @callBlock g _ _ _ _ _ _ _ _ _ _ _ hg hname hopen ha hclose _ hlast _ ihb ih =>
      intro closers rest Q s nodes hclosers hplain hne hs hnext
      exact nodesFrom_statement_yields (p := callBlock setting g.opening) (by simp) hg ih hclosers
        hplain hne (by simpa using hs) hnext fun fuel w s₁ hw hplain₁ hs₁ =>
        callBlock_yields hw hname hopen ha hclose hg.closing ihb hlast hplain₁ (by simp [hne]) hs₁
  | endBranch _ hlast ihb =>
      rintro opening fuel b rest s _ hbroken rfl hplain hne hs
      exact endBranch_yields ihb hlast hbroken hplain hne (by simpa using hs)
  | nextArm _ hmiddle hc _ ihb iha =>
      rintro opening fuel b rest s hseen hbroken rfl hplain hne hs
      refine armsFrom_yields ihb hmiddle (.inl rfl) hplain (by simpa using hs) ?_
      intro fuel b' w s₁ hw hvalue hc₁ harms hbroken' hseen'
      refine Yields.bind (nextArm_yields hw hvalue hc hmiddle.closing (hseen'.trans hseen)
        hc₁.unread) ?_
      rintro b'' s₂ ⟨hc₂, harms'', hcondition, hbroken'', hseen''⟩
      have hc := hc₁.trans hc₂
      refine (iha opening fuel b'' rest s₂ hseen'' (hbroken''.trans (hbroken'.trans hbroken))
        hcondition (hc.plain hplain) hne hc.unread).imp ?_
      rintro o s₃ ⟨hc₃, n, rfl, hn⟩
      refine ⟨hc.trans hc₃, n, rfl, ?_⟩
      rw [hn, harms'', harms, List.append_assoc]
      rfl
  | lastArm _ hmiddle _ hlast ihb iho =>
      rintro opening fuel b rest s hseen hbroken rfl hplain hne hs
      refine armsFrom_yields ihb hmiddle (.inr rfl) hplain (by simpa using hs) ?_
      intro fuel b' w s₁ hw hvalue hc₁ harms hbroken' hseen'
      refine Yields.bind (lastArm_yields hw hvalue hmiddle.closing (hseen'.trans hseen)
        hc₁.unread) ?_
      rintro b'' s₂ ⟨hc₂, harms'', hcondition, hbroken''⟩
      have hc := hc₁.trans hc₂
      refine (endBranch_yields iho hlast (hbroken''.trans (hbroken'.trans hbroken))
        (hc.plain hplain) hne hc.unread).imp ?_
      rintro o s₃ ⟨hc₃, n, rfl, hn⟩
      refine ⟨hc.trans hc₃, n, rfl, ?_⟩
      rw [hn, harms'', harms, hcondition, List.append_assoc]
      rfl

end TemplateCompiler.Parser

namespace TemplateCompiler

open Template (Node bareNodes)

/-- A template that the grammar allows is read as the grammar has it. -/
theorem parseTokens_of_describes {setting : Parser.Setting} (hset : setting.whitespace = .preserve)
    {ts : List Token} {ns : List Node} {final : Token} (h : Describes ts (.nodes ns))
    (hplain : ∀ t ∈ ts, t.kind.isOpener ∨ t.kind.isCloser → t.value = "")
    (hfinal : final.kind = .eof) (hordered : Parser.Ended (ts ++ [final])) :
    ∃ t, parseTokens setting (ts ++ [final]) none = .ok ⟨t, []⟩ ∧ bareNodes t.body = ns := by
  refine parseTokens_of_yields (Q := fun nodes => bareNodes nodes = ns) hordered ?_
  have hstart : Parser.State.Plain { unread := ts ++ [final], fault := none } := by
    refine ⟨nofun, fun t ht hdelimiter => ?_⟩
    rcases List.mem_append.mp ht with ht | ht
    · exact hplain t ht hdelimiter
    · rw [List.mem_singleton.mp ht, hfinal] at hdelimiter
      simp [TokenKind.isOpener, TokenKind.isCloser] at hdelimiter
  refine Parser.describes_isRead hset h [] [final] _ _ [] (by simp) hstart (by simp) rfl ?_ _
  rintro new fuel s' hnew ⟨us, hpast, hunread⟩
  cases fuel with
  | zero =>
      rw [Parser.nodesFrom]
      exact Parser.Yields.outOfFuel
  | succ fuel =>
      rw [Parser.nodesFrom]
      refine Parser.Yields.peek hunread ?_
      simp only [hfinal]
      exact Parser.Yields.pure ⟨hpast.complaints, by simpa using hnew⟩

end TemplateCompiler
