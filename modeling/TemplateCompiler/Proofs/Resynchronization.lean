import TemplateCompiler.Proofs.Recovery

/-!
# Parsers resume behind a bad tag

Where tags are closed and blocks are nested, whatever is wrong in a tag stays a matter of that tag:
the block it belongs to is read to its end, so that no tag that closes a block is taken for a stray
one, and no block for an unclosed one.

One tag is needed as it should be, the `else` of a loop. What is wrong in it ends the loop there,
and the `endfor` behind it is a stray tag.
-/

namespace TemplateCompiler

namespace Parser

open Template (Expr Node)

variable {α β : Type}

/-! ## Statements -/

theorem Finishes.map {s : State} {p : Parser α} {rest : List Token} {g : α → β}
    (hp : Finishes s p rest) : Finishes s (g <$> p) rest :=
  Ends.map hp fun _ _ hr => hr

section

variable {setting : Setting} {s : State} {rest after : List Token} {g : Tag} {fuel : Nat}

theorem tag_finishes_statement (hg : g.Closed) (hopen : g.opening.kind = .blockStart)
    (ho : s.Ordered) (hs : s.unread = g.tokens ++ rest)
    (h : ∀ fuel s', s.Reaches (g.inside ++ g.closing :: rest) s' →
      g.opening.span.start.offset ≤ s'.reached →
      Finishes s' (statement setting g.opening fuel) after) :
    Finishes s (tag setting fuel) after := by
  rw [g.tokens_append] at hs
  cases fuel with
  | zero =>
      rw [tag]
      exact Finishes.outOfFuel
  | succ fuel =>
      rw [tag]
      refine Ends.step (peek_eq hs) ?_
      simp only [hopen]
      refine Finishes.advance ho hs hg.opening_ne_eof fun s' hr htook => ?_
      exact h fuel s' hr htook.start_le_reached

/-- A block tag that is neither the start nor a later part of a block. -/
theorem statement_finishes (hg : g.Closed) (hopen : g.opening.kind = .blockStart)
    (hword : ∀ word, g.word? = some word → word ∉ openingWords ++ closingWords) (ho : s.Ordered)
    (hs : s.unread = g.inside ++ g.closing :: rest)
    (hreached : g.opening.span.start.offset ≤ s.reached) :
    Finishes s (statement setting g.opening fuel) rest := by
  have htag : s.InTag rest := .of_closed hg hs
  obtain ⟨t, ahead, hahead, ht⟩ : ∃ t ahead, s.unread = t :: ahead ∧ (t.kind = .keyword →
      t.value ∉ openingWords ++ closingWords) := by
    cases hinside : g.inside with
    | nil =>
        refine ⟨g.closing, rest, by rw [hs, hinside]; rfl, fun hkind => ?_⟩
        have hcloser := hg.closing
        rw [hkind] at hcloser
        cases hcloser
    | cons t more =>
        refine ⟨t, more ++ g.closing :: rest, by rw [hs, hinside]; rfl, fun hkind => ?_⟩
        exact hword t.value (by simp [Tag.word?, hopen, hinside, hkind])
  cases fuel with
  | zero =>
      rw [statement]
      exact Finishes.outOfFuel
  | succ fuel =>
      rw [statement]
      refine Ends.step (peek_eq hahead) ?_
      split
      · next hkind =>
          have hinner : t.kind.isInner := by
            rw [hkind]
            rfl
          have hout := ht hkind
          split
          · next hvalue => exact absurd (by rw [hvalue]; decide) hout
          · next hvalue => exact absurd (by rw [hvalue]; decide) hout
          · next hvalue => exact absurd (by rw [hvalue]; decide) hout
          · next hvalue => exact absurd (by rw [hvalue]; decide) hout
          · exact ((inclusion_closes hahead hinner setting hreached).finishes ho htag).map
          · exact ((assignment_closes hahead hinner setting hreached).finishes ho htag).map
          · exact ((assignment_closes hahead hinner setting hreached).finishes ho htag).map
          · split
            · next hclosing =>
                exact absurd (List.mem_append_right _ (List.contains_iff_mem.mp hclosing)) hout
            · exact Finishes.complain rfl ho htag
      · exact Finishes.complain rfl ho htag
      · exact Finishes.complain rfl ho htag

theorem tag_finishes (hg : g.Closed)
    (hword : ∀ word, g.word? = some word → word ∉ openingWords ++ closingWords) (ho : s.Ordered)
    (hs : s.unread = g.tokens ++ rest) : Finishes s (tag setting fuel) rest := by
  rcases hg.opening with hopen | hopen
  · exact tag_finishes_statement hg hopen ho hs fun fuel s' hr hreached =>
      statement_finishes hg hopen hword hr.ordered hr.unread hreached
  · rw [g.tokens_append] at hs
    cases fuel with
    | zero =>
        rw [tag]
        exact Finishes.outOfFuel
    | succ fuel =>
        rw [tag]
        refine Ends.step (peek_eq hs) ?_
        simp only [hopen]
        refine Finishes.map (Finishes.advance ho hs hg.opening_ne_eof fun s' hr htook => ?_)
        have hreached := htook.start_le_reached
        exact (output_closes setting s' hreached).finishes hr.ordered (.of_closed hg hr.unread)

end

/-! ## Blocks -/

/-- Reading such tokens comes to what follows them. A list of nodes goes on there, with the nodes it
has so far. -/
def Resumes (setting : Setting) : Stretch → List Token → Prop
  | .nodes, ts => ∀ (closers : List String) (rest : List Token)
      (Q : List Node × Option String → State → Prop) (s : State),
      (∀ word ∈ closers, word ∈ closingWords) → s.Ordered → rest ≠ [] → s.unread = ts ++ rest →
      (∀ fuel nodes s', s.Reaches rest s' → Runs s' (nodesFrom setting closers fuel nodes) Q) →
      ∀ fuel nodes, Runs s (nodesFrom setting closers fuel nodes) Q
  | .arms, us => ∀ (opening : Token) (fuel : Nat) (b : BranchSoFar) (rest : List Token) (s : State),
      b.seenElse = false → s.Ordered → s.unread = us ++ rest →
      Finishes s (armsFrom setting opening fuel b) rest

section

variable {setting : Setting} {opening : Token} {s : State} {ts rest : List Token} {g last : Tag}
  {word construct : String} {closers : List String} {fuel : Nat}

/-- A body ends in front of the tag that closes it. -/
theorem body_gets (hb : Resumes setting .nodes ts) (hlast : last.Says word) (hword : word ∈ closers)
    (hclosers : ∀ word ∈ closers, word ∈ closingWords) (ho : s.Ordered)
    (hs : s.unread = ts ++ (last.tokens ++ rest)) :
    Gets s (body setting opening construct closers fuel) (last.tokens ++ rest)
      fun r => r.2 = word := by
  cases fuel with
  | zero =>
      rw [body]
      exact Runs.outOfFuel
  | succ fuel =>
      rw [body]
      have hnodes : Gets s (nodesFrom setting closers fuel []) (last.tokens ++ rest)
          fun r => r.2 = some word := by
        refine hb closers _ _ s hclosers ho (by simp [Tag.tokens]) hs ?_ fuel []
        intro fuel nodes s' hr
        cases fuel with
        | zero =>
            rw [nodesFrom]
            exact Runs.outOfFuel
        | succ fuel =>
            have hopen := (Tag.word?_eq_some hlast.word).1
            have hunread := hr.unread
            rw [last.tokens_append] at hunread
            rw [nodesFrom]
            refine Ends.step (peek_eq hunread) ?_
            simp only [hopen]
            refine Ends.step (closingWord?_tag hlast.closed hr.unread closers) ?_
            have hfound : last.word?.filter (fun word => closers.contains word) = some word := by
              rw [hlast.word, Option.filter_some, if_pos (List.contains_iff_mem.mpr hword)]
            rw [hfound]
            exact Runs.pure ⟨hr, rfl⟩
      refine hnodes.bind ?_
      rintro ⟨nodes, _⟩ s' hr rfl
      exact Gets.pure hr.ordered hr.unread rfl

/-- The word of a block tag, in front of what else is in it. -/
theorem Tag.Says.ahead (hg : g.Says word) (hs : s.unread = g.inside ++ g.closing :: rest) :
    ∃ t ahead, s.unread = t :: ahead ∧ t.kind = .keyword ∧ t.value = word ∧ t.kind.isInner := by
  obtain ⟨-, t, more, hinside, ht, hvalue⟩ := Tag.word?_eq_some hg.word
  refine ⟨t, more ++ g.closing :: rest, by rw [hs, hinside]; rfl, ht, hvalue, ?_⟩
  rw [ht]
  rfl

/-- The rest of a block behind its body: an end tag, and the node that is made of all of it. -/
theorem endTag_bind_finishes {f : Unit → Parser (Option Node)} (hlast : last.Says word)
    (ho : s.Ordered) (hs : s.unread = last.tokens ++ rest)
    (hf : ∀ s', s'.Ordered → s'.unread = rest → Gets s' (f ()) rest fun _ => True) :
    Finishes s (endTag word >>= f) rest :=
  (endTag_finishes hlast.closed ho hs word).bind fun _ s' hr => hf s' hr.ordered hr.unread

/-- With nothing but its word in it, a tag is read without a complaint. -/
theorem endTag_gets (hg : g.Says word) (hbare : g.IsBare) (ho : s.Ordered)
    (hs : s.unread = g.tokens ++ rest) : Gets s (endTag word) rest fun _ => True := by
  obtain ⟨hopen, t, more, hinside, ht, hvalue⟩ := Tag.word?_eq_some hg.word
  obtain rfl : more = [] := by
    have hlength := hbare.inside
    rw [hinside] at hlength
    simpa using hlength
  have hs' : s.unread = g.opening :: t :: g.closing :: rest := by
    rw [hs, g.tokens_append, hinside]
    rfl
  have hyields : Yields s (endTag word) fun _ s' => s.Past [g.opening, t, g.closing] s' := by
    refine Yields.advance hs' hg.closed.opening_ne_eof fun s₁ hp₁ => ?_
    have hs₁ := hp₁.rest_eq hs'
    refine Yields.expectKeyword hs₁ (by simp [Token.isKeyword, ht, hvalue]) fun s₂ hp₂ => ?_
    have hs₂ := hp₂.rest_eq hs₁
    exact Yields.expect hs₂ hbare.closing (by decide) fun s₃ hp₃ =>
      Yields.pure (hp₁.trans (hp₂.trans hp₃))
  refine Gets.of_yields hyields (endTag_moves word ⟨_, _, _, hs', hopen, ht, rfl⟩)
    (fun _ _ hp => ⟨hp, trivial⟩) ho (hs'.trans ?_)
  rfl

/-- The word of a tag decides which block it opens. -/
theorem statement_opens {p : Nat → Parser (Option Node)}
    (hp : (word, p) ∈ [("if", branch setting opening), ("for", loop setting opening),
      ("macro", definition setting opening), ("call", callBlock setting opening)])
    (hg : g.Says word) (hs : s.unread = g.inside ++ g.closing :: ts)
    (h : ∀ fuel, Finishes s (p fuel) rest) : Finishes s (statement setting opening fuel) rest := by
  obtain ⟨t, ahead, hahead, ht, hvalue, -⟩ := Tag.Says.ahead hg hs
  cases fuel with
  | zero =>
      rw [statement]
      exact Finishes.outOfFuel
  | succ fuel =>
      rw [statement]
      refine Ends.step (peek_eq hahead) ?_
      simp only [List.mem_cons, Prod.mk.injEq, List.not_mem_nil, or_false] at hp
      rcases hp with ⟨rfl, rfl⟩ | ⟨rfl, rfl⟩ | ⟨rfl, rfl⟩ | ⟨rfl, rfl⟩ <;>
        simp only [ht, hvalue] <;> exact h fuel

theorem callBlock_finishes (hb : Resumes setting .nodes ts) (hg : g.Says "call")
    (hlast : last.Says "endcall") (ho : s.Ordered)
    (hs : s.unread = g.inside ++ g.closing :: (ts ++ (last.tokens ++ rest))) :
    Finishes s (callBlock setting opening fuel) rest := by
  obtain ⟨t, ahead, hahead, -, -, ht⟩ := Tag.Says.ahead hg hs
  cases fuel with
  | zero =>
      rw [callBlock]
      exact Finishes.outOfFuel
  | succ fuel =>
      rw [callBlock]
      refine ((callHeader_closes hahead ht).header_gets ho hg.closed hs).bind_finishes ?_
      intro header s₁ hr₁ _
      refine (body_gets hb hlast (by decide) (by decide) hr₁.ordered hr₁.unread).bind_finishes ?_
      intro r s₂ hr₂ _
      refine endTag_bind_finishes hlast hr₂.ordered hr₂.unread fun s₃ ho₃ hs₃ => ?_
      split
      · exact Gets.pure ho₃ hs₃ trivial
      · exact Gets.spanFrom fun span => Gets.pure ho₃ hs₃ trivial

theorem definition_finishes (hb : Resumes setting .nodes ts) (hg : g.Says "macro")
    (hlast : last.Says "endmacro") (ho : s.Ordered)
    (hs : s.unread = g.inside ++ g.closing :: (ts ++ (last.tokens ++ rest))) :
    Finishes s (definition setting opening fuel) rest := by
  obtain ⟨t, ahead, hahead, -, -, ht⟩ := Tag.Says.ahead hg hs
  cases fuel with
  | zero =>
      rw [definition]
      exact Finishes.outOfFuel
  | succ fuel =>
      rw [definition]
      have hheader := (definitionHeader_closes hahead ht setting).header_gets ho hg.closed hs
      refine hheader.bind_finishes ?_
      intro header s₁ hr₁ _
      refine (body_gets hb hlast (by decide) (by decide) hr₁.ordered hr₁.unread).bind_finishes ?_
      intro r s₂ hr₂ _
      refine endTag_bind_finishes hlast hr₂.ordered hr₂.unread fun s₃ ho₃ hs₃ => ?_
      split
      · exact Gets.pure ho₃ hs₃ trivial
      · exact Gets.spanFrom fun span => Gets.pure ho₃ hs₃ trivial

theorem loop_finishes (hb : Resumes setting .nodes ts) (hg : g.Says "for")
    (hlast : last.Says "endfor") (ho : s.Ordered)
    (hs : s.unread = g.inside ++ g.closing :: (ts ++ (last.tokens ++ rest))) :
    Finishes s (loop setting opening fuel) rest := by
  obtain ⟨t, ahead, hahead, -, -, ht⟩ := Tag.Says.ahead hg hs
  cases fuel with
  | zero =>
      rw [loop]
      exact Finishes.outOfFuel
  | succ fuel =>
      rw [loop]
      refine ((loopHeader_closes hahead ht).header_gets ho hg.closed hs).bind_finishes ?_
      intro header s₁ hr₁ _
      refine (body_gets hb hlast (by decide) (by decide) hr₁.ordered hr₁.unread).bind_finishes ?_
      rintro ⟨nodes, _⟩ s₂ hr₂ rfl
      refine endTag_bind_finishes hlast hr₂.ordered hr₂.unread fun s₃ ho₃ hs₃ => ?_
      split
      · exact Gets.pure ho₃ hs₃ trivial
      · exact Gets.spanFrom fun span => Gets.pure ho₃ hs₃ trivial

theorem loopElse_finishes {middle : Tag} {us : List Token} (hb : Resumes setting .nodes ts)
    (he : Resumes setting .nodes us) (hg : g.Says "for") (hmiddle : middle.Says "else")
    (hbare : middle.IsBare) (hlast : last.Says "endfor") (ho : s.Ordered)
    (hs : s.unread = g.inside ++ g.closing ::
      (ts ++ (middle.tokens ++ (us ++ (last.tokens ++ rest))))) :
    Finishes s (loop setting opening fuel) rest := by
  obtain ⟨t, ahead, hahead, -, -, ht⟩ := Tag.Says.ahead hg hs
  cases fuel with
  | zero =>
      rw [loop]
      exact Finishes.outOfFuel
  | succ fuel =>
      rw [loop]
      refine ((loopHeader_closes hahead ht).header_gets ho hg.closed hs).bind_finishes ?_
      intro header s₁ hr₁ _
      refine (body_gets hb hmiddle (by decide) (by decide) hr₁.ordered hr₁.unread).bind_finishes ?_
      rintro ⟨nodes, _⟩ s₂ hr₂ rfl
      dsimp only
      rw [if_pos rfl]
      refine (endTag_gets hmiddle hbare hr₂.ordered hr₂.unread).bind_finishes fun _ s₃ hr₃ _ => ?_
      refine (body_gets he hlast (by decide) (by decide) hr₃.ordered hr₃.unread).bind_finishes ?_
      intro r s₄ hr₄ _
      rw [pure_bind]
      refine endTag_bind_finishes hlast hr₄.ordered hr₄.unread fun s₅ ho₅ hs₅ => ?_
      split
      · exact Gets.pure ho₅ hs₅ trivial
      · exact Gets.spanFrom fun span => Gets.pure ho₅ hs₅ trivial

theorem branch_finishes {us : List Token} (ha : Resumes setting .arms us) (hg : g.Says "if")
    (ho : s.Ordered) (hs : s.unread = g.inside ++ g.closing :: (us ++ rest)) :
    Finishes s (branch setting opening fuel) rest := by
  obtain ⟨t, ahead, hahead, -, -, ht⟩ := Tag.Says.ahead hg hs
  cases fuel with
  | zero =>
      rw [branch]
      exact Finishes.outOfFuel
  | succ fuel =>
      rw [branch]
      refine ((condition_closes hahead ht).header_gets ho hg.closed hs).bind_finishes ?_
      intro header s₁ hr₁ _
      exact ha opening fuel _ rest s₁ rfl hr₁.ordered hr₁.unread

/-! ## Arms -/

/-- The last body of a branch. -/
theorem endBranch_finishes {b : BranchSoFar} (hb : Resumes setting .nodes ts)
    (hlast : last.Says "endif") (ho : s.Ordered) (hs : s.unread = ts ++ (last.tokens ++ rest)) :
    Finishes s (armsFrom setting opening fuel b) rest := by
  cases fuel with
  | zero =>
      rw [armsFrom]
      exact Finishes.outOfFuel
  | succ fuel =>
      rw [armsFrom]
      refine (body_gets hb hlast (by decide) (by decide) ho hs).bind_finishes ?_
      rintro ⟨nodes, _⟩ s₁ hr₁ rfl
      refine Finishes.spanFrom fun armSpan => ?_
      dsimp only
      rw [if_pos rfl]
      refine endTag_bind_finishes hlast hr₁.ordered hr₁.unread fun s₂ ho₂ hs₂ => ?_
      split
      · exact Gets.pure ho₂ hs₂ trivial
      · exact Gets.spanFrom fun span => Gets.pure ho₂ hs₂ trivial

/-- The header of a further arm, in front of the arm for all other cases. -/
theorem nextArm_gets {b : BranchSoFar} (hg : g.Says word) (hword : word = "elif" ∨ word = "else")
    (hseen : b.seenElse = false) (ho : s.Ordered) (hs : s.unread = g.inside ++ g.closing :: rest) :
    Gets s (nextArm b) rest fun b' => word = "elif" → b'.seenElse = false := by
  obtain ⟨-, t, more, hinside, ht, rfl⟩ := Tag.word?_eq_some hg.word
  have hahead : s.unread = t :: (more ++ g.closing :: rest) := by
    rw [hs, hinside]
    rfl
  have hinner : ∀ u ∈ t :: more, u.kind.isInner := hinside ▸ hg.closed.inside
  rw [nextArm]
  refine Ends.step (peek_eq hahead) ?_
  rw [if_neg (by simp [hseen])]
  rcases hword with hvalue | hvalue
  · rw [if_neg (by simp [Token.isKeyword, ht, hvalue])]
    refine ((condition_closes hahead (hinner t List.mem_cons_self)).header_gets ho hg.closed
      hs).bind fun header s' hr _ => ?_
    exact Gets.pure hr.ordered hr.unread fun _ => hseen
  · rw [if_pos (by simp [Token.isKeyword, ht, hvalue])]
    have hend : ∀ s', Closes s' expectBlockEnd fun _ _ => True := fun s' => by
      have h : Closes s' (expectBlockEnd >>= Pure.pure) fun _ _ => True :=
        Closes.close rfl rfl fun _ _ _ _ => Stays.pure trivial
      rwa [bind_pure] at h
    refine Gets.advance ho hahead (by simp [ht]) fun s' hr => ?_
    refine ((hend s').finishes hr.ordered ⟨more, g.closing, hr.unread,
      (List.forall_mem_cons.mp hinner).2, hg.closed.closing⟩).recovering.bind fun _ s'' hr' _ => ?_
    exact Gets.pure hr'.ordered hr'.unread fun helif => by simp [hvalue] at helif

/-- A body of a branch with a further arm behind it. -/
theorem armsFrom_finishes {b : BranchSoFar} {middle : Tag} {after : List Token}
    (hb : Resumes setting .nodes ts) (hmiddle : middle.Says word)
    (hword : word = "elif" ∨ word = "else") (hseen : b.seenElse = false) (ho : s.Ordered)
    (hs : s.unread = ts ++ (middle.tokens ++ rest))
    (h : ∀ fuel b' s', (word = "elif" → b'.seenElse = false) → s'.Ordered → s'.unread = rest →
      Finishes s' (armsFrom setting opening fuel b') after) :
    Finishes s (armsFrom setting opening fuel b) after := by
  cases fuel with
  | zero =>
      rw [armsFrom]
      exact Finishes.outOfFuel
  | succ fuel =>
      rw [armsFrom]
      have hcloser : word ∈ ["elif", "else", "endif"] := by
        rcases hword with rfl | rfl <;> decide
      refine (body_gets hb hmiddle hcloser (by decide) ho hs).bind_finishes ?_
      rintro ⟨nodes, _⟩ s₁ hr₁ rfl
      refine Finishes.spanFrom fun armSpan => ?_
      dsimp only
      rw [if_neg (by rcases hword with rfl | rfl <;> decide)]
      have hs₁ := hr₁.unread
      rw [middle.tokens_append] at hs₁
      refine Finishes.advance hr₁.ordered hs₁ hmiddle.closed.opening_ne_eof fun s₂ hr₂ _ => ?_
      refine Gets.bind_finishes (nextArm_gets hmiddle hword ?_ hr₂.ordered hr₂.unread) ?_
      · exact hseen
      · exact fun b' s₃ hr₃ hb' => h fuel b' s₃ hb' hr₃.ordered hr₃.unread

end

/-! ## Whole sequences -/

section

variable {setting : Setting} {s : State} {rest : List Token} {closers : List String}
  {Q : List Node × Option String → State → Prop}

theorem text_gets {t : Token} (ht : t.kind = .text) (ho : s.Ordered) (hs : s.unread = t :: rest)
    (hne : rest ≠ []) : Gets s (text setting) rest fun _ => True := by
  obtain ⟨u, more, rfl⟩ := List.exists_cons_of_ne_nil hne
  exact Gets.of_yields (text_yields setting hs ht) (text_moves setting hs ht)
    (fun _ _ h => ⟨h.1, trivial⟩) ho hs

theorem comment_gets {t body close : Token} (ht : t.kind = .commentStart)
    (hbody : body.kind = .comment) (hclose : close.kind = .commentEnd) (ho : s.Ordered)
    (hs : s.unread = t :: body :: close :: rest) : Gets s comment rest fun _ => True :=
  Gets.of_yields (comment_yields hs ht hbody hclose) (comment_moves hs ht)
    (fun _ _ h => ⟨h, trivial⟩) ho hs

theorem nodesFrom_text {t : Token} {us : List Token} (ht : t.kind = .text) (ho : s.Ordered)
    (hs : s.unread = t :: us) (hne : us ≠ [])
    (h : ∀ fuel nodes s', s.Reaches us s' → Runs s' (nodesFrom setting closers fuel nodes) Q)
    (fuel : Nat) (nodes : List Node) : Runs s (nodesFrom setting closers fuel nodes) Q := by
  cases fuel with
  | zero =>
      rw [nodesFrom]
      exact Runs.outOfFuel
  | succ fuel =>
      rw [nodesFrom]
      refine Ends.step (peek_eq hs) ?_
      simp only [ht]
      exact (text_gets ht ho hs hne).bind_runs fun _ s' hr _ => h fuel _ s' hr

theorem nodesFrom_comment {t body close : Token} {us : List Token} (ht : t.kind = .commentStart)
    (hbody : body.kind = .comment) (hclose : close.kind = .commentEnd) (ho : s.Ordered)
    (hs : s.unread = t :: body :: close :: us)
    (h : ∀ fuel nodes s', s.Reaches us s' → Runs s' (nodesFrom setting closers fuel nodes) Q)
    (fuel : Nat) (nodes : List Node) : Runs s (nodesFrom setting closers fuel nodes) Q := by
  cases fuel with
  | zero =>
      rw [nodesFrom]
      exact Runs.outOfFuel
  | succ fuel =>
      rw [nodesFrom]
      refine Ends.step (peek_eq hs) ?_
      simp only [ht]
      exact (comment_gets ht hbody hclose ho hs).bind_runs fun _ s' hr _ => h fuel _ s' hr

/-- A closed tag that does not end the list of nodes, with what belongs to it. -/
theorem nodesFrom_tag {g : Tag} {P : Option (Option Node) → State → Prop} (hg : g.Closed)
    (hclosers : ∀ word ∈ closers, g.word? ≠ some word) {us : List Token}
    (hs : s.unread = g.tokens ++ us) (htag : ∀ fuel, Runs s (recovering (tag setting fuel)) P)
    (h : ∀ fuel nodes o s', P o s' → Runs s' (nodesFrom setting closers fuel nodes) Q) (fuel : Nat)
    (nodes : List Node) : Runs s (nodesFrom setting closers fuel nodes) Q := by
  have hs' := hs
  rw [g.tokens_append] at hs'
  cases fuel with
  | zero =>
      rw [nodesFrom]
      exact Runs.outOfFuel
  | succ fuel =>
      rw [nodesFrom]
      refine Ends.step (peek_eq hs') ?_
      have hnone : g.word?.filter (fun word => closers.contains word) = none := by
        rw [Option.filter_eq_none_iff]
        intro word hword hcontains
        exact hclosers word (List.contains_iff_mem.mp hcontains) hword
      rcases hg.opening with hopen | hopen
      all_goals
        simp only [hopen]
        refine Ends.step (closingWord?_tag hg hs closers) ?_
        rw [hnone]
        exact Ends.bind (htag fuel) fun o s' ho => h fuel _ o s' ho

/-- A tag that opens a block, with the whole block. -/
theorem nodesFrom_block {g : Tag} {word : String} (hg : g.Says word) (hword : word ∈ openingWords)
    (hclosers : ∀ word ∈ closers, word ∈ closingWords) {us : List Token} (ho : s.Ordered)
    (hs : s.unread = g.tokens ++ us)
    (hblock : ∀ fuel s', s'.Ordered → s'.unread = g.inside ++ g.closing :: us →
      Finishes s' (statement setting g.opening fuel) rest)
    (h : ∀ fuel nodes s', s.Reaches rest s' →
      Runs s' (nodesFrom setting closers fuel nodes) Q) (fuel : Nat) (nodes : List Node) :
    Runs s (nodesFrom setting closers fuel nodes) Q := by
  refine nodesFrom_tag hg.closed ?_ hs (fun fuel => Finishes.recovering ?_)
    (fun fuel nodes _ s' ⟨hr, _⟩ => h fuel nodes s' hr) fuel nodes
  · intro closer hcloser heq
    obtain rfl := Option.some.inj (hg.word.symm.trans heq)
    have hdisjoint : ∀ word ∈ openingWords, word ∉ closingWords := by decide
    exact hdisjoint word hword (hclosers word hcloser)
  · exact tag_finishes_statement hg.closed (Tag.word?_eq_some hg.word).1 ho hs
      fun fuel s' hr _ => hblock fuel s' hr.ordered hr.unread

/-- What is known of tokens, seen from a state before them. -/
theorem nodesFrom_resumes {ts : List Token} {s₁ : State} (hts : Resumes setting .nodes ts)
    (hclosers : ∀ word ∈ closers, word ∈ closingWords) (hne : rest ≠ [])
    (hnext : ∀ fuel nodes s', s.Reaches rest s' →
      Runs s' (nodesFrom setting closers fuel nodes) Q)
    (hr₁ : s.Reaches (ts ++ rest) s₁) (fuel : Nat) (nodes : List Node) :
    Runs s₁ (nodesFrom setting closers fuel nodes) Q :=
  hts closers rest Q s₁ hclosers hr₁.ordered hne hr₁.unread
    (fun fuel nodes s₂ hr₂ => hnext fuel nodes s₂ (hr₁.trans hr₂)) fuel nodes

end

/-- What stands in nested tags may be anything. -/
theorem resumes_of_nested {setting : Setting} {stretch : Stretch} {ts : List Token}
    (h : Nested Tag.IsBare stretch ts) : Resumes setting stretch ts := by
  induction h with
  | done =>
      intro closers rest Q s _ ho _ hs hnext fuel nodes
      exact hnext fuel nodes s (.refl ho hs)
  | @text t ts ht _ ih =>
      intro closers rest Q s hclosers ho hne hs hnext
      exact nodesFrom_text ht ho hs (by simp [hne]) fun fuel nodes s₁ hr₁ =>
        nodesFrom_resumes ih hclosers hne hnext hr₁ fuel nodes
  | comment hopen hbody hclose _ ih =>
      intro closers rest Q s hclosers ho hne hs hnext
      exact nodesFrom_comment hopen hbody hclose ho hs fun fuel nodes s₁ hr₁ =>
        nodesFrom_resumes ih hclosers hne hnext hr₁ fuel nodes
  | tag hg hword _ ih =>
      intro closers rest Q s hclosers ho hne hs hnext fuel nodes
      rw [List.append_assoc] at hs
      refine nodesFrom_tag hg ?_ hs (fun fuel => (tag_finishes hg hword ho hs).recovering) ?_ fuel
        nodes
      · exact fun word hcloser heq =>
          hword word heq (List.mem_append_right _ (hclosers word hcloser))
      · rintro fuel nodes _ s₁ ⟨hr₁, -⟩
        exact nodesFrom_resumes ih hclosers hne hnext hr₁ fuel nodes
  | @branch first _ _ hfirst _ _ iha ih =>
      intro closers rest Q s hclosers ho hne hs hnext fuel nodes
      simp only [List.append_assoc] at hs
      refine nodesFrom_block hfirst (by decide) hclosers ho hs (fun fuel s' ho' hs' => ?_)
        (fun fuel nodes s₁ hr₁ => nodesFrom_resumes ih hclosers hne hnext hr₁ fuel nodes) fuel nodes
      exact statement_opens (p := branch setting first.opening) (by simp) hfirst hs' fun fuel =>
        branch_finishes iha hfirst ho' hs'
  | @block _ first _ _ _ hword hfirst _ hlast _ ihb ih =>
      intro closers rest Q s hclosers ho hne hs hnext fuel nodes
      simp only [List.append_assoc] at hs
      refine nodesFrom_block hfirst (List.mem_cons_of_mem _ hword) hclosers ho hs
        (fun fuel s' ho' hs' => ?_)
        (fun fuel nodes s₁ hr₁ => nodesFrom_resumes ih hclosers hne hnext hr₁ fuel nodes) fuel nodes
      simp only [List.mem_cons, List.not_mem_nil, or_false] at hword
      rcases hword with rfl | rfl | rfl
      · exact statement_opens (p := loop setting first.opening) (by simp) hfirst hs' fun fuel =>
          loop_finishes ihb hfirst hlast ho' hs'
      · exact statement_opens (p := definition setting first.opening) (by simp) hfirst hs'
          fun fuel => definition_finishes ihb hfirst hlast ho' hs'
      · exact statement_opens (p := callBlock setting first.opening) (by simp) hfirst hs'
          fun fuel => callBlock_finishes ihb hfirst hlast ho' hs'
  | @loopElse first _ _ _ _ _ hfirst _ hmiddle hbare _ hlast _ ihb iho ih =>
      intro closers rest Q s hclosers ho hne hs hnext fuel nodes
      simp only [List.append_assoc] at hs
      refine nodesFrom_block hfirst (by decide) hclosers ho hs (fun fuel s' ho' hs' => ?_)
        (fun fuel nodes s₁ hr₁ => nodesFrom_resumes ih hclosers hne hnext hr₁ fuel nodes) fuel nodes
      exact statement_opens (p := loop setting first.opening) (by simp) hfirst hs' fun fuel =>
        loopElse_finishes ihb iho hfirst hmiddle hbare hlast ho' hs'
  | endBranch _ hlast ihb =>
      intro opening fuel b rest s _ ho hs
      rw [List.append_assoc] at hs
      exact endBranch_finishes ihb hlast ho hs
  | nextArm _ hmiddle _ ihb iha =>
      intro opening fuel b rest s hseen ho hs
      simp only [List.append_assoc] at hs
      exact armsFrom_finishes ihb hmiddle (.inl rfl) hseen ho hs fun fuel b' s' hseen' ho' hs' =>
        iha opening fuel b' rest s' (hseen' rfl) ho' hs'
  | lastArm _ hmiddle _ hlast ihb iho =>
      intro opening fuel b rest s hseen ho hs
      simp only [List.append_assoc] at hs
      exact armsFrom_finishes ihb hmiddle (.inr rfl) hseen ho hs fun fuel b' s' _ ho' hs' =>
        endBranch_finishes iho hlast ho' hs'

theorem nodesFrom_final {setting : Setting} {final : Token} {s s' : State}
    (hfinal : final.kind = .eof) (hr : s.Reaches [final] s') (fuel : Nat) (nodes : List Node) :
    Gets s' (nodesFrom setting [] fuel nodes) [final] fun _ => True := by
  cases fuel with
  | zero =>
      rw [nodesFrom]
      exact Runs.outOfFuel
  | succ fuel =>
      rw [nodesFrom]
      refine Ends.step (peek_eq hr.unread) ?_
      simp only [hfinal]
      exact Runs.pure ⟨.refl hr.ordered hr.unread, trivial⟩

/-- Nested tags are read to their end, and what is complained about is single tags. -/
theorem nodesFrom_nested {setting : Setting} {ts : List Token} {final : Token} {s : State}
    (hts : Nested Tag.IsBare .nodes ts) (hfinal : final.kind = .eof) (ho : s.Ordered)
    (hs : s.unread = ts ++ [final]) (fuel : Nat) :
    Gets s (nodesFrom setting [] fuel []) [final] fun _ => True := by
  refine resumes_of_nested hts [] [final] _ s nofun ho (List.cons_ne_nil _ _) hs ?_ fuel []
  exact fun fuel nodes s' hr => (nodesFrom_final hfinal hr fuel nodes).imp
    (fun _ _ ⟨hr', _⟩ => ⟨hr.trans hr', trivial⟩) fun _ _ he => he

/-! ## What is wrong in the `else` of a loop -/

section

variable {setting : Setting} {opening : Token} {s : State} {ts rest : List Token} {g : Tag}
  {word : String} {fuel : Nat}

/-- With anything but its word in it, a tag is complained about. -/
theorem endTag_fails {f : Unit → Parser β} (hg : g.Says word) (hbad : ¬ g.IsBare) (ho : s.Ordered)
    (hs : s.unread = g.tokens ++ rest) : Finishes s (endTag word >>= f) rest := by
  have hreads : Reads [] s (endTag word) fun _ us => ∃ t u close, us = [t, u, close] ∧
      u.kind = .keyword ∧ close.kind = .blockEnd := by
    refine Reads.advance_of (g.tokens_append rest ▸ hs) hg.closed.opening_ne_eof fun s₁ _ => ?_
    refine Reads.expectKeyword fun u s₂ hu => ?_
    exact Reads.expect (by decide) fun close s₃ hclose =>
      Reads.pure ⟨_, u, close, rfl, Token.kind_eq_of_isKeyword hu, hclose⟩
  refine Ends.bind (P := fun _ _ => False) ?_ fun _ _ => False.elim
  refine (Ends.and (endTag_finishes hg.closed ho hs word) hreads).imp ?_ fun _ _ he => he.1
  rintro - s' ⟨-, _, hread, t, u, close, rfl, hu, hclose⟩
  rw [hs, g.tokens_append] at hread
  obtain ⟨-, hread⟩ := List.cons.inj hread
  obtain ⟨hinside, hclosing, -⟩ := @cut_unique g.inside [u] _ _ _ _ hread hg.closed.inside
    (by simp [hu, TokenKind.isInner]) (by simp [isInner_of_isCloser hg.closed.closing])
    (by simp [hclose, TokenKind.isInner])
  exact hbad ⟨by rw [hinside]; rfl, by rw [hclosing, hclose]⟩

/-- A loop ends where its `else` is wrong. -/
theorem brokenLoop_finishes {middle : Tag} (hb : Resumes setting .nodes ts) (hg : g.Says "for")
    (hmiddle : middle.Says "else") (hbad : ¬ middle.IsBare) (ho : s.Ordered)
    (hs : s.unread = g.inside ++ g.closing :: (ts ++ (middle.tokens ++ rest))) :
    Finishes s (loop setting opening fuel) rest := by
  obtain ⟨t, ahead, hahead, -, -, ht⟩ := Tag.Says.ahead hg hs
  cases fuel with
  | zero =>
      rw [loop]
      exact Finishes.outOfFuel
  | succ fuel =>
      rw [loop]
      refine ((loopHeader_closes hahead ht).header_gets ho hg.closed hs).bind_finishes ?_
      intro header s₁ hr₁ _
      refine (body_gets hb hmiddle (by decide) (by decide) hr₁.ordered hr₁.unread).bind_finishes ?_
      rintro ⟨nodes, _⟩ s₂ hr₂ rfl
      dsimp only
      rw [if_pos rfl]
      exact endTag_fails hmiddle hbad hr₂.ordered hr₂.unread

theorem statement_stray {t : Token} {ahead : List Token} (hs : s.unread = t :: ahead)
    (ht : t.kind = .keyword) (hword : t.value ∈ closingWords) :
    Ends (statement setting opening fuel) s (fun _ _ => False) fun e s' =>
      e.Silent ∨ s' = s ∧ e = .complaint ⟨.strayTag t.value, t.span⟩ := by
  cases fuel with
  | zero =>
      rw [statement]
      exact Ends.throw (.inl trivial)
  | succ fuel =>
      rw [statement]
      refine Ends.step (peek_eq hs) ?_
      simp only [ht]
      split
      iterate 7 next hvalue => exact absurd (hvalue ▸ hword) (by decide)
      rw [if_pos (List.contains_iff_mem.mpr hword)]
      exact Ends.throw (.inr ⟨rfl, rfl⟩)

/-- A tag that closes no block is complained about. -/
theorem tag_stray (hg : g.Says word) (hword : word ∈ closingWords) (ho : s.Ordered)
    (hs : s.unread = g.tokens ++ rest) :
    Runs s (recovering (tag setting fuel)) fun _ s' => s'.Ordered ∧ s'.unread = rest ∧
      ∃ c ∈ s'.complaints, c.problem = .strayTag word := by
  obtain ⟨hopen, t, more, hinside, ht, rfl⟩ := Tag.word?_eq_some hg.word
  rw [g.tokens_append] at hs
  obtain ⟨hr, -⟩ := ho.reaches_consume hs hg.closed.opening_ne_eof
  have htag : Ends (tag setting fuel) s (fun _ _ => False) fun e s' => e.Silent ∨
      s' = s.consume g.opening (g.inside ++ g.closing :: rest) ∧
        e = .complaint ⟨.strayTag t.value, t.span⟩ := by
    cases fuel with
    | zero =>
        rw [tag]
        exact Ends.throw (.inl trivial)
    | succ fuel =>
        rw [tag]
        refine Ends.step (peek_eq hs) ?_
        simp only [hopen]
        refine Ends.step (advance_eq hs hg.closed.opening_ne_eof) ?_
        exact @statement_stray _ _ _ _ t (more ++ g.closing :: rest)
          (by rw [hr.unread, hinside]; rfl) ht hword
  refine Ends.tryCatch (Ends.map htag fun _ _ => False.elim) ?_
  rintro e s' he
  cases e with
  | complaint c =>
      obtain ⟨rfl, hc⟩ := he.resolve_left id
      obtain rfl := Stop.complaint.inj hc
      refine Ends.bind ((recover_closes _ hr.ordered (.of_closed hg.closed hr.unread)).imp
        (fun _ _ h => h) fun _ _ => False.elim) ?_
      rintro - s'' ⟨honward, hunread, hnoted⟩
      refine Runs.pure ⟨honward.ordered, hunread, ⟨.strayTag t.value, t.span⟩, ?_, rfl⟩
      rw [hnoted]
      exact List.mem_append_right _ List.mem_cons_self
  | _ => exact Ends.throw trivial

/-- Behind a loop whose `else` is wrong, its end tag is complained about. -/
theorem nodesFrom_brokenLoop {pre body otherwise post : List Token} {first middle last : Tag}
    {final : Token} (hpre : Nested Tag.IsBare .nodes pre) (hfirst : first.Says "for")
    (hbody : Nested Tag.IsBare .nodes body) (hmiddle : middle.Says "else")
    (hbad : ¬ middle.IsBare) (hotherwise : Nested Tag.IsBare .nodes otherwise)
    (hlast : last.Says "endfor") (hpost : Nested Tag.IsBare .nodes post)
    (hfinal : final.kind = .eof) (ho : s.Ordered)
    (hs : s.unread = pre ++ (first.tokens ++ (body ++ (middle.tokens ++ (otherwise ++
      (last.tokens ++ (post ++ [final]))))))) :
    Runs s (nodesFrom setting [] fuel []) fun _ s' =>
      ∃ c ∈ s'.complaints, c.problem = .strayTag "endfor" := by
  refine resumes_of_nested hpre [] _ _ s (List.forall_mem_nil _) ho (by simp [Tag.tokens]) hs ?_
    fuel []
  intro fuel nodes s₁ hr₁
  refine nodesFrom_block hfirst (by decide) (List.forall_mem_nil _) hr₁.ordered hr₁.unread
    (fun fuel s' ho' hs' => statement_opens (p := loop setting first.opening) (by simp) hfirst hs'
      fun fuel => brokenLoop_finishes (resumes_of_nested hbody) hfirst hmiddle hbad ho' hs')
    ?_ fuel nodes
  intro fuel nodes s₂ hr₂
  refine nodesFrom_resumes (resumes_of_nested hotherwise) (List.forall_mem_nil _)
    (by simp [Tag.tokens]) ?_ hr₂ fuel nodes
  intro fuel nodes s₃ hr₃
  refine nodesFrom_tag hlast.closed (List.forall_mem_nil _) hr₃.unread
    (fun fuel => tag_stray hlast (by decide) hr₃.ordered hr₃.unread) ?_ fuel nodes
  rintro fuel nodes _ s₄ ⟨ho₄, hs₄, c, hc, hproblem⟩
  refine resumes_of_nested hpost [] [final] _ s₄ (List.forall_mem_nil _) ho₄
    (List.cons_ne_nil _ _) hs₄ ?_ fuel nodes
  intro fuel nodes s₅ hr₅
  refine (nodesFrom_final hfinal hr₅ fuel nodes).imp ?_ fun _ _ he => he
  rintro r s₆ ⟨hr₆, -⟩
  obtain ⟨cs, hcs, -⟩ := (hr₅.trans hr₆).complaints
  exact ⟨c, hcs ▸ List.mem_append_left cs hc, hproblem⟩

end

end Parser

/-- A parse that does not stop at a complaint gives a template, unless it meets a number that is
none. -/
theorem parseTokens_of_silent {setting : Parser.Setting} {ts : List Token}
    {Q : List Complaint → Prop} (hts : Parser.Ended ts)
    (h : Ends (Parser.nodesFrom setting [] (Parser.templateFuel ts.length) [])
      { unread := ts, fault := none } (fun _ s' => Q s'.complaints) fun e _ => e.Silent) :
    (∃ p, parseTokens setting ts none = .ok p ∧ Q p.complaints) ∨
      ∃ f, parseTokens setting ts none = .error (.badNumber f) := by
  have htemplate := Parser.template_ends (Q := fun _ s' => Q s'.complaints) hts.ordered rfl h
  unfold parseTokens
  cases hrun : Parser.template setting { unread := ts, fault := none } with
  | ok t s' => exact .inl ⟨⟨t, s'.complaints⟩, rfl, htemplate.of_ok hrun⟩
  | error e s' =>
      obtain ⟨hsilent, hstops⟩ := htemplate.of_error hrun
      cases e with
      | badNumber f => exact .inr ⟨f, rfl⟩
      | complaint c => exact hsilent.elim
      | lexical f => cases hstops
      | _ => exact hstops.elim

/-- If the tags of a source are closed and its blocks are nested, no tag is taken for a stray one
and no block for an unclosed one, whatever else is wrong in the tags. -/
theorem parse_nested {setting : Parser.Setting} {delimiters : Delimiters} {source : String}
    {ts : List Token} {final : Token}
    (htokens : tokenize source setting.unit delimiters = (ts ++ [final], none))
    (hfinal : final.kind = .eof) (hts : Nested Tag.IsBare .nodes ts) :
    (∃ p, parse setting delimiters source = .ok p ∧ ∀ c ∈ p.complaints, c.problem.isLocal) ∨
      ∃ f, parse setting delimiters source = .error (.badNumber f) := by
  have horder := tokenize_inOrder source setting.unit delimiters
  rw [htokens] at horder
  have hended : Parser.Ended (ts ++ [final]) :=
    ⟨horder.apart, horder.forward, final, by simp, hfinal⟩
  unfold parse
  rw [htokens]
  refine parseTokens_of_silent (Q := fun cs => ∀ c ∈ cs, c.problem.isLocal) hended ?_
  refine Ends.imp (Parser.nodesFrom_nested hts hfinal hended.ordered rfl _) ?_ fun _ _ he => he
  rintro r s' ⟨hr, -⟩
  obtain ⟨cs, hcs, hlocal⟩ := hr.complaints
  rw [hcs]
  exact hlocal

/-- A branch without a condition, and with a name too many in its end tag. -/
theorem nested_of_broken_branch :
    let source := "\x7b% if %\x7da\x7b% endif b %\x7d"
    ∃ ts final, tokenize source "page" .standard = (ts ++ [final], none) ∧ final.kind = .eof ∧
      Nested Tag.IsBare .nodes ts ∧
      ((∃ p, parse ⟨"page", .preserve⟩ .standard source = .ok p ∧
          ∀ c ∈ p.complaints, c.problem.isLocal) ∨
        ∃ f, parse ⟨"page", .preserve⟩ .standard source = .error (.badNumber f)) := by
  intro source
  have hfault : (tokenize source "page" .standard).2 = none := by decide +kernel
  have hviews : (tokenize source "page" .standard).1.map (fun t => (t.kind, t.value)) =
      [(.blockStart, ""), (.keyword, "if"), (.blockEnd, ""), (.text, "a"), (.blockStart, ""),
        (.keyword, "endif"), (.identifier, "b"), (.blockEnd, ""), (.eof, "")] := by decide +kernel
  simp only [List.map_eq_cons_iff, List.map_eq_nil_iff, Prod.mk.injEq] at hviews
  obtain ⟨o₁, _, htokens, ⟨ho₁, -⟩, w₁, _, rfl, ⟨hw₁, hv₁⟩, c₁, _, rfl, ⟨hc₁, -⟩,
    t, _, rfl, ⟨ht, -⟩, o₂, _, rfl, ⟨ho₂, -⟩, w₂, _, rfl, ⟨hw₂, hv₂⟩, n, _, rfl, ⟨hn, -⟩,
    c₂, _, rfl, ⟨hc₂, -⟩, final, _, rfl, ⟨hfinal, -⟩, rfl⟩ := hviews
  have hfirst : Tag.Says ⟨o₁, [w₁], c₁⟩ "if" :=
    ⟨⟨.inl ho₁, by simp [hw₁, TokenKind.isInner], by simp [hc₁, TokenKind.isCloser]⟩,
      by simp [Tag.word?, ho₁, hw₁, hv₁]⟩
  have hlast : Tag.Says ⟨o₂, [w₂, n], c₂⟩ "endif" :=
    ⟨⟨.inl ho₂, by simp [hw₂, hn, TokenKind.isInner], by simp [hc₂, TokenKind.isCloser]⟩,
      by simp [Tag.word?, ho₂, hw₂, hv₂]⟩
  have hnested : Nested Tag.IsBare .nodes [o₁, w₁, c₁, t, o₂, w₂, n, c₂] :=
    .branch hfirst (.endBranch (.text ht .done) hlast) .done
  have htokenize : tokenize source "page" .standard =
      ([o₁, w₁, c₁, t, o₂, w₂, n, c₂] ++ [final], none) := Prod.ext htokens hfault
  exact ⟨_, final, htokenize, hfinal, hnested,
    @parse_nested ⟨"page", .preserve⟩ _ _ _ _ htokenize hfinal hnested⟩

/-- The `else` of a loop is the one tag that has to be right: with anything but that word in it, the
end tag of the loop is taken for a stray one. -/
theorem parse_brokenLoop {setting : Parser.Setting} {delimiters : Delimiters} {source : String}
    {pre body otherwise post : List Token} {first middle last : Tag} {final : Token}
    (htokens : tokenize source setting.unit delimiters = (pre ++ (first.tokens ++ (body ++
      (middle.tokens ++ (otherwise ++ (last.tokens ++ (post ++ [final])))))), none))
    (hpre : Nested Tag.IsBare .nodes pre) (hfirst : first.Says "for")
    (hbody : Nested Tag.IsBare .nodes body) (hmiddle : middle.Says "else")
    (hbad : ¬ middle.IsBare) (hotherwise : Nested Tag.IsBare .nodes otherwise)
    (hlast : last.Says "endfor") (hpost : Nested Tag.IsBare .nodes post)
    (hfinal : final.kind = .eof) :
    (∃ p, parse setting delimiters source = .ok p ∧
        ∃ c ∈ p.complaints, c.problem = .strayTag "endfor") ∨
      ∃ f, parse setting delimiters source = .error (.badNumber f) := by
  have horder := tokenize_inOrder source setting.unit delimiters
  rw [htokens] at horder
  have hended := Parser.Ended.mk horder.apart horder.forward ⟨final, by simp, hfinal⟩
  unfold parse
  rw [htokens]
  exact parseTokens_of_silent (Q := fun cs => ∃ c ∈ cs, c.problem = .strayTag "endfor") hended
    (Parser.nodesFrom_brokenLoop hpre hfirst hbody hmiddle hbad hotherwise hlast hpost hfinal
      hended.ordered rfl)

end TemplateCompiler
