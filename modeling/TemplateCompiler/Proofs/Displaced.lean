import Mathlib.Data.List.Forall2
import TemplateCompiler.Token.Scanner

/-!
# The same text in another place

What a scanner reads depends on the text ahead and on the mode of reading. Where the text stands is
only counted on from there and put into spans. So two scanners with the same text ahead of them read
the same, at places of their own.

Which places belong together is left open: any relation will do that goes on to hold behind every
further character (`Position.GoesOn`). `Displaced` says of each thing with places in it that a
second one is the same but for its places, which belong to those of the first.
-/

namespace TemplateCompiler

/-- Places that belong together still do one character later. -/
def Position.GoesOn (R : Position → Position → Prop) : Prop :=
  ∀ p q c, R p q → R (p.next c) (q.next c)

theorem Position.GoesOn.advance {R : Position → Position → Prop} (hR : GoesOn R) {p q : Position}
    (h : R p q) (text : List Char) : R (p.advance text) (q.advance text) := by
  induction text generalizing p q with
  | nil => exact h
  | cons c text ih => exact ih (hR p q c h)

section

variable (R : Position → Position → Prop)

/-! ## Things in other places -/

structure Span.Displaced (s s' : Span) : Prop where
  start : R s.start s'.start
  stop : R s.stop s'.stop
  unit : s'.unit = s.unit

structure Token.Displaced (t u : Token) : Prop where
  kind : u.kind = t.kind
  value : u.value = t.value
  raw : u.raw = t.raw
  span : t.span.Displaced R u.span

structure Located.Displaced {π : Type} (f g : Located π) : Prop where
  problem : g.problem = f.problem
  span : f.span.Displaced R g.span

inductive ScanMode.Displaced : ScanMode → ScanMode → Prop
  | text : Displaced .text .text
  | tag : Displaced .tag .tag
  | comment {p q} (h : R p q) : Displaced (.comment p) (.comment q)
  | commentEnd {marker} : Displaced (.commentEnd marker) (.commentEnd marker)
  | finished : Displaced .finished .finished

structure Scanner.Displaced (s s' : Scanner) : Prop where
  delimiters : s'.delimiters = s.delimiters
  unit : s'.unit = s.unit
  position : R s.position s'.position
  rest : s'.rest = s.rest
  mode : s.mode.Displaced R s'.mode

inductive ScanStep.Displaced : ScanStep → ScanStep → Prop
  | token {t u s s'} (ht : t.Displaced R u) (hs : s.Displaced R s') :
      Displaced (.token t s) (.token u s')
  | fault {f g} (h : f.Displaced R g) : Displaced (.fault f) (.fault g)
  | finished : Displaced .finished .finished

/-- What stands between quotes, or what is wrong with it and from where to where. -/
inductive Scanner.StringDisplaced {π ρ : Type} :
    Except (π × Position × Position) ρ → Except (π × Position × Position) ρ → Prop
  | ok (r : ρ) : StringDisplaced (.ok r) (.ok r)
  | error {problem start stop start' stop'} (hstart : R start start') (hstop : R stop stop') :
      StringDisplaced (.error (problem, start, stop)) (.error (problem, start', stop'))

end

namespace Scanner

variable {R : Position → Position → Prop} {s s' : Scanner}

/-! ## Steps -/

section

variable (hR : Position.GoesOn R) (h : s.Displaced R s')

include h

theorem Displaced.fail {problem : LexicalProblem} {start stop start' stop' : Position}
    (hstart : R start start') (hstop : R stop stop') :
    (s.fail problem start stop).Displaced R (s'.fail problem start' stop') :=
  .fault ⟨rfl, hstart, hstop, h.unit⟩

include hR

theorem Displaced.emit {kind : TokenKind} {value raw : List Char} {mode mode' : ScanMode}
    (hmode : mode.Displaced R mode') :
    (s.emit kind value raw mode).Displaced R (s'.emit kind value raw mode') := by
  have hstop := hR.advance h.position raw
  refine .token ⟨rfl, rfl, rfl, h.position, hstop, h.unit⟩ ⟨h.delimiters, h.unit, hstop, ?_, hmode⟩
  show s'.rest.drop _ = s.rest.drop _
  rw [h.rest]

theorem Displaced.nextText : s.nextText.Displaced R s'.nextText := by
  unfold Scanner.nextText
  rw [h.delimiters, h.rest]
  split
  · exact h.emit hR .finished
  · split
    · unfold nextOpener
      rw [h.rest]
      dsimp only
      split
      · exact h.emit hR (.comment h.position)
      · exact h.emit hR .tag
    · dsimp only
      split
      · have hplace := hR.advance h.position
          ((beforeOpener s.delimiters s.rest).takeWhile (· ≠ '\x00'))
        exact h.fail hplace hplace
      · exact h.emit hR .text

theorem Displaced.nextComment {opened opened' : Position} (hopened : R opened opened') :
    (s.nextComment opened).Displaced R (s'.nextComment opened') := by
  unfold Scanner.nextComment
  rw [h.delimiters, h.rest]
  split
  · exact h.fail hopened h.position
  · exact h.emit hR .commentEnd

theorem Displaced.nextCommentEnd (marker : List Char) :
    (s.nextCommentEnd marker).Displaced R (s'.nextCommentEnd marker) := by
  unfold Scanner.nextCommentEnd
  rw [h.delimiters]
  exact h.emit hR .text

omit h in
theorem stringBody_displaced {opened opened' place place' : Position} (hopened : R opened opened')
    (hplace : R place place') (quote : Char) (decoded text : List Char) :
    StringDisplaced R (stringBody opened quote place decoded text)
      (stringBody opened' quote place' decoded text) := by
  fun_induction stringBody opened quote place decoded text generalizing place' with
  | case1 place decoded => exact .error hopened hplace
  | case2 place decoded after =>
      rw [stringBody.eq_def opened']
      dsimp only
      rw [if_pos rfl]
      exact .ok _
  | case3 place decoded hquote =>
      rw [stringBody.eq_def opened']
      dsimp only
      rw [if_neg hquote, if_pos rfl]
      exact .error hopened (hR _ _ _ hplace)
  | case4 place decoded e after d hd hquote ih =>
      rw [stringBody.eq_def opened']
      dsimp only
      rw [if_neg hquote, if_pos rfl, hd]
      exact ih (hR _ _ e (hR _ _ _ hplace))
  | case5 place decoded e after hd hquote =>
      rw [stringBody.eq_def opened']
      dsimp only
      rw [if_neg hquote, if_pos rfl, hd]
      exact .error hplace (hR _ _ e (hR _ _ _ hplace))
  | case6 place decoded after hquote hslash =>
      rw [stringBody.eq_def opened']
      dsimp only
      rw [if_neg hquote, if_neg hslash, if_pos rfl]
      exact .error hplace hplace
  | case7 place decoded c after hquote hslash hnul ih =>
      rw [stringBody.eq_def opened']
      dsimp only
      rw [if_neg hquote, if_neg hslash, if_neg hnul]
      exact ih (hR _ _ c hplace)

theorem Displaced.nextString (quote : Char) (body : List Char) :
    (s.nextString quote body).Displaced R (s'.nextString quote body) := by
  have hbody := stringBody_displaced hR h.position (hR _ _ quote h.position) quote [] body
  unfold Scanner.nextString
  generalize stringBody s.position quote (s.position.next quote) [] body = read,
    stringBody s'.position quote (s'.position.next quote) [] body = read' at hbody
  cases hbody with
  | ok r =>
      dsimp only
      rw [h.rest]
      exact h.emit hR .tag
  | error hstart hstop => exact h.fail hstart hstop

theorem Displaced.nextSign (c : Char) : (s.nextSign c).Displaced R (s'.nextSign c) := by
  unfold Scanner.nextSign
  rw [h.rest]
  split
  · exact h.emit hR .tag
  · split
    · exact h.emit hR .tag
    · exact h.fail h.position (hR _ _ c h.position)

theorem Displaced.nextInTag : s.nextInTag.Displaced R s'.nextInTag := by
  unfold Scanner.nextInTag
  rw [h.delimiters, h.rest]
  split
  · exact h.emit hR .finished
  · split
    · exact h.emit hR .text
    · split
      · exact h.fail h.position h.position
      · split
        · unfold nextWord
          rw [h.rest]
          exact h.emit hR .tag
        · split
          · unfold nextNumber
            rw [h.rest]
            exact h.emit hR .tag
          · split
            · exact h.nextString hR _ _
            · exact h.nextSign hR _

theorem Displaced.next : s.next.Displaced R s'.next := by
  have hmode := h.mode
  unfold Scanner.next
  generalize s.mode = mode, s'.mode = mode' at hmode
  cases hmode with
  | text => exact h.nextText hR
  | tag =>
      have hskipped : s.skipBlanks.Displaced R s'.skipBlanks := by
        refine ⟨h.delimiters, h.unit, ?_, ?_, h.mode⟩
        · show R (s.position.advance _) (s'.position.advance (s'.rest.takeWhile isTagBlank))
          rw [h.rest]
          exact hR.advance h.position _
        · show s'.rest.dropWhile isTagBlank = s.rest.dropWhile isTagBlank
          rw [h.rest]
      exact hskipped.nextInTag hR
  | comment hopened => exact h.nextComment hR hopened
  | commentEnd => exact h.nextCommentEnd hR _
  | finished => exact .finished

/-! ## Runs -/

/-- The same text is read into the same tokens and the same fault, wherever it stands. -/
theorem Displaced.run (fuel : Nat) :
    List.Forall₂ (Token.Displaced R) (s.run fuel).1 (s'.run fuel).1 ∧
      Option.Rel (Located.Displaced R) (s.run fuel).2 (s'.run fuel).2 := by
  induction fuel generalizing s s' with
  | zero => exact ⟨.nil, .none⟩
  | succ fuel ih =>
      have hnext := h.next hR
      rw [Scanner.run, Scanner.run]
      generalize s.next = step, s'.next = step' at hnext
      cases hnext with
      | finished => exact ⟨.nil, .none⟩
      | fault hf => exact ⟨.nil, .some hf⟩
      | token ht hs => exact ⟨.cons ht (ih hs).1, (ih hs).2⟩

end

end Scanner

end TemplateCompiler
