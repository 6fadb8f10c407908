import TemplateCompiler.Proofs.BlamedTokens
import TemplateCompiler.Proofs.Coverage
import TemplateCompiler.Proofs.Displaced
import TemplateCompiler.Proofs.HeaderComplete
import TemplateCompiler.Proofs.Stretches

/-!
# Comments that are left out

Without a comment, a source in the standard syntax has the same tokens in other places, but for one
thing: the text behind the comment goes on where the text before it ended. No opener comes about at
the joint, since a text that an opener follows does not end in a brace.

So the two token sequences stand side by side for a parser (`Pairing.Ahead`). Up to the last closing
delimiter before the comment the same tokens are read in front of any text, then comes the joint,
and from the next opener on both scanners have the same text ahead of them.
-/

namespace TemplateCompiler

namespace Scanner

/-! ## Texts that go on -/

section

variable {text more : List Char}

/-- An opener begins with a brace. -/
theorem exists_of_opener? {opener : String × TokenKind} (h : opener? .standard text = some opener) :
    ∃ more, text = '\x7b' :: more := by
  have hfirst : ∀ opener ∈ Delimiters.standard.openers, opener.toList.head? = some '\x7b' := by
    decide
  obtain ⟨hmem, ⟨after, rfl⟩, -⟩ := opener?_eq_some h
  obtain ⟨rest, hrest⟩ := List.head?_eq_some_iff.mp (hfirst opener.1 hmem)
  exact ⟨rest ++ after, by rw [hrest, List.cons_append]⟩

theorem opener?_standard_of_ne {c : Char} (hc : c ≠ '\x7b') :
    opener? .standard (c :: text) = none := by
  refine Option.eq_none_iff_forall_ne_some.mpr fun opener hopener => ?_
  obtain ⟨more, hmore⟩ := exists_of_opener? hopener
  exact hc (List.cons.inj hmore).1

/-- The text before an opener goes on as far as what is put behind it does. -/
theorem beforeOpener_append (h : beforeOpener .standard (text ++ '\x7b' :: more) = text)
    (after : List Char) :
    beforeOpener .standard (text ++ after) = text ++ beforeOpener .standard after := by
  induction text with
  | nil => rfl
  | cons c text ih =>
      rw [List.cons_append, beforeOpener] at h ⊢
      split at h
      · cases h
      · next hopener =>
          have hnone : opener? .standard (c :: (text ++ after)) = none := by
            cases text with
            | nil =>
                refine opener?_standard_of_ne ?_
                rintro rfl
                exact hopener rfl
            | cons d text =>
                have hsame : opener? .standard (c :: (d :: text ++ after)) =
                    opener? .standard (c :: (d :: text ++ '\x7b' :: more)) := opener?_congr rfl
                rwa [hsame, ← Option.not_isSome_iff_eq_none]
          rw [hnone, if_neg (by simp), ih (List.cons.inj h).2, List.cons_append]

end

variable {s s' : Scanner}

/-- Up to the next border there is one text or none. -/
theorem exists_reads_text (hmode : s.mode = .text)
    (hnul : '\x00' ∉ beforeOpener s.delimiters s.rest) :
    ∃ o s', s.Reads o.toList s' ∧
      Parser.textOf o = String.ofList (beforeOpener s.delimiters s.rest) ∧
      (∀ t ∈ o, t.kind = .text ∧ t.value ≠ "") ∧ s'.AtBorder ∧
      s'.rest = s.rest.drop (beforeOpener s.delimiters s.rest).length ∧
      s'.delimiters = s.delimiters ∧ s'.unit = s.unit := by
  have hends := beforeOpener_ends s.delimiters s.rest
  generalize htext : beforeOpener s.delimiters s.rest = text at hnul hends ⊢
  by_cases hempty : text = []
  · subst hempty
    exact ⟨none, s, .done, rfl, by simp, ⟨hmode, hends⟩, rfl, rfl, rfl⟩
  · have hrest : s.rest ≠ [] := by
      intro hrest
      rw [hrest] at htext
      exact hempty htext.symm
    have hopener : opener? s.delimiters s.rest = none := by
      obtain ⟨c, rest, hs⟩ := List.exists_cons_of_ne_nil hrest
      rw [hs, beforeOpener] at htext
      split at htext
      · exact absurd htext.symm hempty
      · next hno => rwa [hs, ← Option.not_isSome_iff_eq_none]
    have hnext : s.next = s.emit .text text text .text :=
      (next_text hmode).trans (nextText_of_text hrest hopener htext hnul)
    refine ⟨some _, _, .single hnext, rfl, ?_, ⟨rfl, hends⟩, rfl, rfl, rfl⟩
    rintro _ ⟨⟩
    exact ⟨rfl, by simpa using hempty⟩

/-- At a border there is a token to read. -/
theorem AtBorder.run_ne_nil (h : s.AtBorder) (fuel : Nat) : (s.run (fuel + 1)).1 ≠ [] := by
  obtain ⟨t, s', hnext⟩ : ∃ t s', s.next = .token t s' := by
    rw [next_text h.between]
    by_cases hrest : s.rest = []
    · exact ⟨_, _, by rw [nextText, hrest]; rfl⟩
    · obtain ⟨⟨opener, kind⟩, hopener⟩ := h.ahead.resolve_left hrest
      exact ⟨_, _, nextText_of_opener hrest hopener⟩
  rw [run, hnext]
  exact List.cons_ne_nil _ _

/-! ## Where a comment begins -/

theorem opener_of_next {t : Token} (hmode : s.mode = .text) (h : s.next = .token t s')
    (ht : t.kind.isOpener) : ∃ opener, opener? s.delimiters s.rest = some opener := by
  rw [next_text hmode] at h
  by_cases hrest : s.rest = []
  · rw [nextText, hrest] at h
    cases h
    cases ht
  · rcases nextText_inv hrest h with ⟨opener, kind, hopener, -⟩ | ⟨text, -, -, -, hemit⟩
    · exact ⟨_, hopener⟩
    · cases hemit
      cases ht

/-- In front of a place between tags there is a text or not, and before it a delimiter. -/
theorem Reads.cut_text {ts : List Token} (h : s.Reads ts s') (hd : s.delimiters.Solid)
    (hs : s.Consistent) (hmode : s.mode = .text) (hmode' : s'.mode = .text) :
    ∃ (front : List Token) (o : Option Token) (s₁ : Scanner), ts = front ++ o.toList ∧
      s.Reads front s₁ ∧ s₁.Reads o.toList s' ∧ s₁.mode = .text ∧ (∀ t ∈ o, t.kind = .text) ∧
      ∀ t ∈ front.getLast?, t.kind.isCloser := by
  have hlast : ∀ {front : List Token} {t : Token} {s' : Scanner}, s.Reads (front ++ [t]) s' →
      s'.mode = .text → ∃ s₁, s.Reads front s₁ ∧ s₁.next = .token t s' ∧
        (t.kind = .text ∧ s₁.mode = .text ∨ t.kind.isCloser) ∧ (t.kind = .text → s'.AtBorder) := by
    intro front t s' h hmode'
    obtain ⟨s₁, hfront, ht⟩ := h.split
    obtain ⟨_, hnext, hdone⟩ := ht.of_cons
    cases hdone
    have hreached := hfront.reached hd hs
    have hsteps := next_steps (hreached.delimiters ▸ hd) hreached.consistent
    rw [hnext] at hsteps
    obtain ⟨gap, he⟩ := hsteps
    have hturns := he.turns
    refine ⟨s₁, hfront, hnext, ?_, next_atBorder hturns hnext⟩
    rw [hmode'] at hturns
    refine hturns.closes.imp_left fun htext => ⟨htext, ?_⟩
    rw [htext] at hturns
    exact hturns.betweenTags.1
  rcases List.eq_nil_or_concat' ts with rfl | ⟨front, t, rfl⟩
  · cases h
    exact ⟨[], none, s, rfl, .done, .done, hmode, by simp, by simp⟩
  · obtain ⟨s₁, hfront, hnext, ⟨htext, hmode₁⟩ | hcloser, -⟩ := hlast h hmode'
    · refine ⟨front, some t, s₁, rfl, hfront, .single hnext, hmode₁, by simpa using htext, ?_⟩
      rcases List.eq_nil_or_concat' front with rfl | ⟨front, u, rfl⟩
      · simp
      · -- a text in front of a text would end at a border
        obtain ⟨s₂, -, -, hkind, hborder⟩ := hlast hfront hmode₁
        rcases hkind with ⟨hutext, -⟩ | hcloser
        · rcases (hborder hutext).next hnext with hopen | heof
          · rw [htext] at hopen
            cases hopen
          · cases htext.symm.trans heof
        · simpa using hcloser
    · exact ⟨front ++ [t], none, s', (List.append_nil _).symm, h, .done, hmode', by simp,
        by simpa using hcloser⟩

/-- What a text that may be missing is, in front of an opener. -/
theorem text_of_reads {o : Option Token} (h : s.Reads o.toList s') (hmode : s.mode = .text)
    (ho : ∀ t ∈ o, t.kind = .text)
    (hopener : ∃ opener, opener? s.delimiters s'.rest = some opener) :
    ∃ text, s.rest = text ++ s'.rest ∧ beforeOpener s.delimiters s.rest = text ∧
      Parser.textOf o = String.ofList text ∧ ∀ t ∈ o, t.kind = .text ∧ t.value ≠ "" := by
  cases o with
  | none =>
      cases h
      refine ⟨[], rfl, ?_, rfl, by simp⟩
      obtain ⟨opener, hopener⟩ := hopener
      cases hrest : s.rest with
      | nil => rfl
      | cons c rest =>
          rw [hrest] at hopener
          rw [beforeOpener, hopener]
          rfl
  | some t =>
      obtain ⟨_, hnext, hdone⟩ := Reads.of_cons h
      cases hdone
      have htext : t.kind = .text := ho t rfl
      rw [next_text hmode] at hnext
      by_cases hrest : s.rest = []
      · rw [nextText, hrest] at hnext
        cases hnext
        cases htext
      · rcases nextText_inv hrest hnext with
          ⟨opener, kind, hkind, hopens⟩ | ⟨text, hnone, hbefore, -, hemit⟩
        · cases hopens
          obtain ⟨-, -, rfl⟩ := opener?_eq_some hkind
          have hopen := openerKind_isOpener s.delimiters opener
          rw [show openerKind s.delimiters opener = .text from htext] at hopen
          cases hopen
        · have hne : text ≠ [] := by
            rintro rfl
            obtain ⟨c, rest, hs⟩ := List.exists_cons_of_ne_nil hrest
            rw [hs] at hnone hbefore
            rw [beforeOpener, hnone] at hbefore
            cases hbefore
          obtain ⟨after, hafter⟩ := beforeOpener_begins s.delimiters s.rest
          rw [hbefore] at hafter
          cases hemit
          refine ⟨text, ?_, hbefore, rfl, ?_⟩
          · show s.rest = text ++ s.rest.drop text.length
            rw [← hafter, List.drop_left]
          · rintro _ ⟨⟩
            exact ⟨rfl, by simpa using hne⟩

end Scanner

/-! ## Side by side -/

/-- The token is no delimiter with a whitespace marker. -/
def Token.Unmarked (t : Token) : Prop :=
  t.kind.isOpener ∨ t.kind.isCloser → t.value = ""

namespace Parser

/-- Tokens of the same kinds and values, with no marker among them, where text is kept as it is. -/
def Pairing.unmarked (unit : String) : Pairing where
  setting := ⟨unit, .preserve⟩
  tokens t u := u.kind = t.kind ∧ u.value = t.value ∧ t.Unmarked
  faults f g := g.problem = f.problem
  joins := True
  kind h := h.1
  value h := h.2.1
  plain _ _ _ h hdelimiter := Setting.effective_preserve rfl (by
    rintro _ ⟨⟩
    exact h.2.2 hdelimiter)

namespace Pairing

variable {P : Pairing} {s s' : Scanner} {ts us us' : List Token}

/-- A stretch that both sequences have. -/
theorem Ahead.of_reads (h : s.Reads ts s') (hd : s.delimiters.Solid) (hs : s.Consistent)
    (hts : ∀ t ∈ ts, P.tokens t t) (hrest : P.Ahead s'.mode us us') :
    P.Ahead s.mode (ts ++ us) (ts ++ us') := by
  induction h with
  | done => exact hrest
  | step hnext _ ih =>
      have hsteps := Scanner.next_steps hd hs
      rw [hnext] at hsteps
      obtain ⟨gap, he⟩ := hsteps
      obtain ⟨ht, hts⟩ := List.forall_mem_cons.mp hts
      exact .step ht he.turns (ih (he.delimiters ▸ hd) he.consistent hts hrest)

/-- The same text in other places. -/
theorem ahead_of_displaced (unit : String) {R : Position → Position → Prop} {mode : ScanMode}
    (h : List.Forall₂ (Token.Displaced R) ts us) (hfollows : mode.Follows ts)
    (hts : ∀ t ∈ ts, t.Unmarked) : (unmarked unit).Ahead mode ts us := by
  induction h generalizing mode with
  | nil => exact .nil
  | cons htu _ ih =>
      obtain ⟨mode', hturns, hfollows⟩ := hfollows
      obtain ⟨ht, hts⟩ := List.forall_mem_cons.mp hts
      exact .step ⟨htu.kind, htu.value, ht⟩ hturns (ih hfollows hts)

end Pairing

end Parser

/-- What is left of a source without the characters from one offset up to another. -/
def Text.without (source : String) (start stop : Nat) : String :=
  String.ofList (source.toList.take start ++ source.toList.drop stop)

section

variable {source unit : String} {before after : List Token} {opening body close : Token}

theorem ScanMode.Turns.text_of_opener {mode mode' : ScanMode} {kind : TokenKind}
    (h : mode.Turns kind mode') (hkind : kind.isOpener) : mode = .text := by
  cases h with
  | openTag | openComment => rfl
  | closeTag hclose => rcases hclose with rfl | rfl <;> cases hkind
  | inner hinner => cases kind <;> first | exact absurd hkind (by decide) | cases hinner
  | _ => cases hkind

theorem ScanMode.Turns.text_of_commentEnd {mode mode' : ScanMode}
    (h : mode.Turns .commentEnd mode') : mode' = .text := by
  cases h with
  | closeComment => rfl
  | openTag hopen => rcases hopen with hkind | hkind <;> cases hkind
  | closeTag hclose => rcases hclose with hkind | hkind <;> cases hkind
  | inner hinner => cases hinner

/-- The scanners at the two ends of a comment, and where they stand. -/
theorem exists_cut_at_comment
    (htokens : (tokenize source unit .standard).1 = before ++ opening :: body :: close :: after)
    (hopening : opening.kind = .commentStart) (hclose : close.kind = .commentEnd) :
    ∃ (s s' : Scanner) (text text' : List Char),
      (Scanner.ofSource source unit .standard).Reads before s ∧
      s.Reads [opening, body, close] s' ∧ s.mode = .text ∧ s'.mode = .text ∧
      (∃ opener, Scanner.opener? s.delimiters s.rest = some opener) ∧
      source.toList = text ++ s.rest ∧ opening.span.start.offset = text.length ∧
      source.toList = text' ++ s'.rest ∧ close.span.stop.offset = text'.length := by
  have hsolid := Delimiters.solid_of_check Delimiters.check_standard
  have hs : (Scanner.ofSource source unit .standard).Consistent := nofun
  obtain ⟨s', hall⟩ := Scanner.reads_of_tokenize
    (show _ = (before ++ [opening, body, close]) ++ after by simpa using htokens)
  obtain ⟨s, hbefore, hcomment⟩ := hall.split
  have hreached := hbefore.reached hsolid hs
  obtain ⟨text, htext, hplace⟩ := hreached.place
  obtain ⟨text', htext', hplace'⟩ := (hall.reached hsolid hs).place
  have hoffset : ∀ text, (Position.initial.advance text).offset = text.length := fun text =>
    congrArg Position.offset (Position.behind_advance [] text)
  obtain ⟨s₁, gap, hnext, he, hbody⟩ := hcomment.emits (hreached.delimiters ▸ hsolid)
    hreached.consistent
  have hmode : s.mode = .text := he.turns.text_of_opener (hopening ▸ rfl)
  have hnogap : gap = [] := by
    by_contra hgap
    cases hmode.symm.trans (he.inTag hgap)
  have hstart : opening.span.start = s.position := by
    rw [he.span, hnogap]
    rfl
  have hd₁ : s₁.delimiters.Solid := he.delimiters ▸ hreached.delimiters ▸ hsolid
  obtain ⟨s₂, _, -, he₂, hend⟩ := hbody.emits hd₁ he.consistent
  obtain ⟨_, _, -, he₃, hdone⟩ := hend.emits (he₂.delimiters ▸ hd₁) he₂.consistent
  cases hdone
  have hturns := he₃.turns
  rw [hclose] at hturns
  refine ⟨s, s', text, text', hbefore, hcomment, hmode, hturns.text_of_commentEnd,
    Scanner.opener_of_next hmode hnext (hopening ▸ rfl), htext, ?_, htext', ?_⟩
  · rw [hstart, hplace]
    exact hoffset text
  · rw [he₃.span]
    show s'.position.offset = _
    rw [hplace']
    exact hoffset text'

/-- Two scanners read on to the next border, one of them from a text that is in front of the text
ahead of the other. From there on they read the same. -/
theorem exists_joined {s s' : Scanner} {o : Option Token} {text : List Char}
    (hd : s.delimiters = .standard) (hd' : s'.delimiters = .standard) (hmode : s.mode = .text)
    (hmode' : s'.mode = .text) (hunit : s.unit = s'.unit)
    (hvalue : Parser.textOf o = String.ofList text) (hkept : ∀ t ∈ o, t.kind = .text ∧ t.value ≠ "")
    (hjoint : Scanner.beforeOpener .standard (text ++ s'.rest) =
      text ++ Scanner.beforeOpener .standard s'.rest)
    (hnul : '\x00' ∉ text ++ Scanner.beforeOpener .standard s'.rest) :
    ∃ o₁ o₂ s₁ s₂, s'.Reads o₁.toList s₁ ∧ (s.before (text ++ s'.rest)).Reads o₂.toList s₂ ∧
      Parser.Joins o o₁ o₂ ∧ s₁.AtBorder ∧ s₁.Displaced (fun _ _ => True) s₂ := by
  obtain ⟨o₁, s₁, h₁, hvalue₁, hkept₁, hborder₁, hrest₁, hd₁, hunit₁⟩ :=
    Scanner.exists_reads_text hmode' (by
      rw [hd']
      exact fun hmem => hnul (List.mem_append_right _ hmem))
  obtain ⟨o₂, s₂, h₂, hvalue₂, hkept₂, hborder₂, hrest₂, hd₂, hunit₂⟩ :=
    Scanner.exists_reads_text (s := s.before (text ++ s'.rest)) hmode (by
      show '\x00' ∉ Scanner.beforeOpener s.delimiters (text ++ s'.rest)
      rw [hd, hjoint]
      exact hnul)
  have hbefore₂ : Scanner.beforeOpener (s.before (text ++ s'.rest)).delimiters
      (s.before (text ++ s'.rest)).rest = text ++ Scanner.beforeOpener .standard s'.rest := by
    rw [← hjoint, ← hd]
    rfl
  rw [hd'] at hvalue₁ hrest₁
  rw [hbefore₂] at hvalue₂ hrest₂
  refine ⟨o₁, o₂, s₁, s₂, h₁, h₂, ⟨?_, ?_⟩, hborder₁, ?_⟩
  · rw [hvalue₂, hvalue, hvalue₁, String.ofList_append]
  · simpa using ⟨hkept, hkept₁, hkept₂⟩
  · refine ⟨?_, ?_, trivial, ?_, ?_⟩
    · rw [hd₂, hd₁, hd']
      exact hd
    · rw [hunit₂, hunit₁]
      exact hunit
    · rw [hrest₂, hrest₁, Scanner.rest_before, List.length_append, List.drop_length_add_append]
    · rw [hborder₁.between, hborder₂.between]
      exact .text

/-- Scanners at a comment, with `rest` the source without it. Both sources are read up to `s`, with
the text before the comment ahead, and `s'` is behind the comment. -/
structure CutAt (source rest unit : String) (comment front : List Token) (o : Option Token)
    (s s' : Scanner) (text : List Char) : Prop where
  reads : (Scanner.ofSource source unit .standard).Reads front s
  reads' : (Scanner.ofSource rest unit .standard).Reads front (s.before (text ++ s'.rest))
  comment : s.Reads (o.toList ++ comment) s'
  mode : s.mode = .text
  mode' : s'.mode = .text
  value : Parser.textOf o = String.ofList text
  kept : ∀ t ∈ o, t.kind = .text ∧ t.value ≠ ""
  /-- No opener comes about where the two texts meet. -/
  joint : Scanner.beforeOpener .standard (text ++ s'.rest) =
    text ++ Scanner.beforeOpener .standard s'.rest
  plain : '\x00' ∉ text ++ Scanner.beforeOpener .standard s'.rest

theorem exists_cutAt (hnul : '\x00' ∉ source.toList)
    (htokens : (tokenize source unit .standard).1 = before ++ opening :: body :: close :: after)
    (hopening : opening.kind = .commentStart) (hclose : close.kind = .commentEnd) :
    ∃ front o s s' text, CutAt source
      (Text.without source opening.span.start.offset close.span.stop.offset) unit
      [opening, body, close] front o s s' text := by
  have hsolid := Delimiters.solid_of_check Delimiters.check_standard
  have hs : (Scanner.ofSource source unit .standard).Consistent := nofun
  obtain ⟨s, s', text, text', hbefore, hcomment, hmode, hmode', ⟨opener, hopener⟩, htext, hstart,
    htext', hstop⟩ := exists_cut_at_comment htokens hopening hclose
  obtain ⟨front, o, s₁, rfl, hfront, ho, hmode₁, hotext, hlast⟩ :=
    hbefore.cut_text hsolid hs rfl hmode
  have hd₁ : s₁.delimiters = .standard := (hfront.reached hsolid hs).delimiters
  rw [show s.delimiters = .standard from (hbefore.reached hsolid hs).delimiters] at hopener
  obtain ⟨before, hrest₁, hbefore₁, hvalue, hkept⟩ :=
    Scanner.text_of_reads ho hmode₁ hotext ⟨opener, hd₁ ▸ hopener⟩
  obtain ⟨read, hread, -, hreads⟩ := hfront.before rfl hs hlast
  obtain rfl : text = read ++ before := by
    have hsame := htext.symm.trans hread
    rw [hrest₁, ← List.append_assoc] at hsame
    exact List.append_cancel_right hsame
  have hsource : Scanner.ofSource (Text.without source opening.span.start.offset
      close.span.stop.offset) unit .standard =
      (Scanner.ofSource source unit .standard).before (read ++ (before ++ s'.rest)) := by
    have hleft : source.toList.take (read ++ before).length ++ source.toList.drop text'.length =
        read ++ (before ++ s'.rest) := by
      rw [htext', List.drop_left, ← htext', htext, List.take_left, List.append_assoc]
    simp [Scanner.ofSource, Scanner.before, Text.without, hstart, hstop, ← hleft]
  refine ⟨front, o, s₁, s', before, hfront, hsource ▸ hreads _, ho.append hcomment, hmode₁, hmode',
    hvalue, hkept, ?_, fun hmem => ?_⟩
  · obtain ⟨more, hmore⟩ := Scanner.exists_of_opener? hopener
    rw [hd₁, hrest₁, hmore] at hbefore₁
    exact Scanner.beforeOpener_append hbefore₁ s'.rest
  · rcases List.mem_append.mp hmem with hmem | hmem
    · exact hnul (by simp [htext, hmem])
    · have hbehind := (Scanner.beforeOpener_begins _ _).subset hmem
      exact hnul (by simp [htext', hbehind])

/-- The tokens of the two sources stand side by side, and end in the same fault. -/
theorem tokenize_without_comment (hnul : '\x00' ∉ source.toList)
    (hunmarked : ∀ t ∈ (tokenize source unit .standard).1, t.Unmarked)
    (htokens : (tokenize source unit .standard).1 = before ++ opening :: body :: close :: after)
    (hopening : opening.kind = .commentStart) (hbody : body.kind = .comment)
    (hclose : close.kind = .commentEnd) :
    let rest := Text.without source opening.span.start.offset close.span.stop.offset
    (Parser.Pairing.unmarked unit).Ahead .text (tokenize source unit .standard).1
        (tokenize rest unit .standard).1 ∧
      Option.Rel (Parser.Pairing.unmarked unit).faults (tokenize source unit .standard).2
        (tokenize rest unit .standard).2 := by
  intro rest
  have hsolid := Delimiters.solid_of_check Delimiters.check_standard
  have hs : (Scanner.ofSource source unit .standard).Consistent := nofun
  obtain ⟨front, o, s, s', text, hcut⟩ := exists_cutAt hnul htokens hopening hclose
  have hreached := hcut.reads.reached hsolid hs
  have hd : s.delimiters = .standard := hreached.delimiters
  have hreached' := hcut.comment.reached (hd ▸ hsolid) hreached.consistent
  obtain ⟨o₁, o₂, s₁, s₂, h₁, h₂, hjoins, hborder, hdisplaced⟩ :=
    exists_joined hd (hreached'.delimiters.trans hd) hcut.mode hcut.mode' hreached'.unit.symm
      hcut.value hcut.kept hcut.joint hcut.plain
  have hall := hcut.reads.append (hcut.comment.append h₁)
  have hreached₁ := hall.reached hsolid hs
  -- from the next border on both have the same text ahead
  have hmode₂ : s₂.mode = .text := by
    have hmodes := hdisplaced.mode
    rw [hborder.between] at hmodes
    generalize s₂.mode = mode at hmodes
    cases hmodes
    rfl
  have hweight : s₁.weight = 2 * s₁.rest.length + 1 := by
    rw [Scanner.weight, hborder.between]
  have hweight₂ : s₂.weight = s₁.weight := by
    rw [hweight, Scanner.weight, hmode₂, hdisplaced.rest]
  have hne := hborder.run_ne_nil (2 * s₁.rest.length)
  have hfollows := Scanner.run_follows s₁.weight s₁ (hreached₁.delimiters ▸ hsolid)
    hreached₁.consistent
  rw [hborder.between] at hfollows
  rw [← hweight] at hne
  rw [hall.tokenize Delimiters.check_standard] at hunmarked ⊢
  rw [(hcut.reads'.append h₂).tokenize Delimiters.check_standard, hweight₂]
  obtain ⟨htokens, hfaults⟩ := hdisplaced.run (fun _ _ _ _ => trivial) s₁.weight
  have hbehind := Parser.Pairing.ahead_of_displaced unit htokens hfollows
    fun t ht => hunmarked t (List.mem_append_right _ ht)
  refine ⟨?_, ?_⟩
  · simp only [List.append_assoc]
    refine .of_reads hcut.reads hsolid hs (fun t ht => ⟨rfl, rfl, hunmarked t (by simp [ht])⟩) ?_
    rw [hcut.mode]
    refine .joint trivial hopening hbody hclose (fun t ht => ?_) hjoins hne
      (fun h => hne (hbehind.eq_nil_iff.mpr h)) hbehind
    refine Parser.Setting.effective_preserve rfl ?_
    rintro _ ⟨⟩
    rcases List.mem_pair.mp ht with rfl | rfl
    · exact hunmarked t (by simp) (.inl (hopening ▸ rfl))
    · exact hunmarked t (by simp) (.inr (hclose ▸ rfl))
  · generalize (s₁.run s₁.weight).2 = fault, (s₂.run s₁.weight).2 = fault' at hfaults
    cases hfaults with
    | none => exact .none
    | some h => exact .some h.problem

end

/-! ## Parsing -/

namespace Parser

open Template (SameJoined)

/-- A source that has tokens is parsed into the nodes of its body, and only a number can stop it. -/
theorem parse_of_templateBody (setting : Setting) {delimiters : Delimiters} {source : String}
    (hd : delimiters.check = .ok ()) (hne : (tokenize source setting.unit delimiters).1 ≠ []) :
    let s : State := { unread := (tokenize source setting.unit delimiters).1,
                       fault := (tokenize source setting.unit delimiters).2 }
    (∀ nodes s', templateBody setting s = .ok nodes s' →
        ∃ span, parse setting delimiters source = .ok ⟨⟨nodes, span⟩, s'.complaints⟩) ∧
      ∀ e s', templateBody setting s = .error e s' →
        parse setting delimiters source = .error e ∧ ∃ f, e = .badNumber f := by
  have ho := State.Ordered.of_tokenize hd source setting.unit
  obtain ⟨hchain, hnumbers, hend⟩ := tokenize_continues hd source setting.unit
  unfold parse
  obtain ⟨⟨ts, fault⟩, htokens⟩ : ∃ r, tokenize source setting.unit delimiters = r := ⟨_, rfl⟩
  rw [htokens] at ho hchain hnumbers hend hne ⊢
  have hends := templateBody_ends setting ho hchain hnumbers hend
  dsimp only [parseTokens, template]
  refine ⟨fun nodes s' hbody => ?_, fun e s' hbody => ?_⟩
  · obtain ⟨-, htaken⟩ := hends.of_ok hbody
    obtain ⟨span, hspan⟩ := spanFrom_initial setting.unit (s := s') fun h => (htaken h).symm ▸ hne
    refine ⟨span, ?_⟩
    rw [bind_apply_of_ok hbody, bind_apply_of_ok hspan]
    rfl
  · rw [bind_apply_of_error hbody]
    refine ⟨rfl, ?_⟩
    cases hends.of_error hbody with
    | nothingRead h => exact absurd h hne
    | badNumber => exact ⟨_, rfl⟩

/-- Two runs that come to something or are stopped by a number do so together. -/
theorem Pairing.Pair.together {α β : Type} {P : Pairing} {s s' : State} {p : Parser α}
    {q : Parser β} {Q : α → β → State → State → Prop} (h : P.Pair s s' p q Q)
    (hp : ∀ e s₁, p s = .error e s₁ → ∃ f, e = .badNumber f)
    (hq : ∀ e s₁, q s' = .error e s₁ → ∃ f, e = .badNumber f) :
    (∃ a b s₁ s₁', p s = .ok a s₁ ∧ q s' = .ok b s₁' ∧ Q a b s₁ s₁') ∨
      ∃ f s₁ s₁', p s = .error (.badNumber f) s₁ ∧ q s' = .error (.badNumber f) s₁' := by
  cases h with
  | ok hok hok' h => exact .inl ⟨_, _, _, _, hok, hok', h⟩
  | complaint herror =>
      obtain ⟨f, heq⟩ := hp _ _ herror
      cases heq
  | stop herror herror' he =>
      obtain ⟨f, rfl⟩ := hp _ _ herror
      cases he
      exact .inr ⟨f, _, _, herror, herror'⟩
  | first herror he =>
      obtain ⟨f, rfl⟩ := hp _ _ herror
      exact he.elim
  | second herror he =>
      obtain ⟨f, rfl⟩ := hq _ _ herror
      exact he.elim

/-- What two runs report is about the same, if their faults are. -/
theorem Pairing.Reported.problems {P : Pairing} {cs cs' : List Complaint} (h : P.Reported cs cs')
    (hfaults : ∀ {f f'}, P.faults f f' → f'.problem = f.problem) :
    cs'.map (·.problem) = cs.map (·.problem) := by
  have hearlier : ∀ {cs cs' : List Complaint}, List.Forall₂ P.Complaints cs cs' →
      cs'.map (·.problem) = cs.map (·.problem) := by
    intro cs cs' h
    induction h with
    | nil => rfl
    | cons hc _ ih => rw [List.map_cons, List.map_cons, hc.problem, ih]
  cases h with
  | proper h => exact hearlier h
  | faulty h hf => rw [List.map_append, List.map_append, hearlier h]; simp [hfaults hf]

end Parser

section

variable {source unit : String} {before after : List Token} {opening body close : Token}

open Template (SameJoined)

/-- The two sources give the same problems and the same tree, up to spans and to where its texts are
cut. -/
theorem parse_without_comment (hnul : '\x00' ∉ source.toList)
    (hunmarked : ∀ t ∈ (tokenize source unit .standard).1, t.Unmarked)
    (htokens : (tokenize source unit .standard).1 = before ++ opening :: body :: close :: after)
    (hopening : opening.kind = .commentStart) (hbody : body.kind = .comment)
    (hclose : close.kind = .commentEnd) :
    let rest := Text.without source opening.span.start.offset close.span.stop.offset
    (∃ p q, parse ⟨unit, .preserve⟩ .standard source = .ok p ∧
        parse ⟨unit, .preserve⟩ .standard rest = .ok q ∧
        q.complaints.map (·.problem) = p.complaints.map (·.problem) ∧
        SameJoined p.template.body q.template.body) ∨
      ∃ f, parse ⟨unit, .preserve⟩ .standard source = .error (.badNumber f) ∧
        parse ⟨unit, .preserve⟩ .standard rest = .error (.badNumber f) := by
  intro rest
  obtain ⟨hahead, hfaults⟩ :=
    tokenize_without_comment hnul hunmarked htokens hopening hbody hclose
  have hne : (tokenize source unit .standard).1 ≠ [] := by
    rw [htokens]
    exact List.append_ne_nil_of_right_ne_nil _ (List.cons_ne_nil _ _)
  have hne' : (tokenize rest unit .standard).1 ≠ [] := fun h => hne (hahead.eq_nil_iff.mpr h)
  have hbeside : (Parser.Pairing.unmarked unit).Beside .text False
      { unread := (tokenize source unit .standard).1, fault := (tokenize source unit .standard).2 }
      { unread := (tokenize rest unit .standard).1, fault := (tokenize rest unit .standard).2 } :=
    ⟨hahead, hfaults, .nil, False.elim, rfl, fun _ => rfl⟩
  have hpair := Parser.Pairing.templateBody_pair hbeside
  obtain ⟨hok, herror⟩ := Parser.parse_of_templateBody ⟨unit, .preserve⟩
    Delimiters.check_standard hne
  obtain ⟨hok', herror'⟩ := Parser.parse_of_templateBody ⟨unit, .preserve⟩
    Delimiters.check_standard hne'
  rcases hpair.together (fun e s h => (herror e s h).2) (fun e s h => (herror' e s h).2) with
    ⟨nodes, nodes', s, s', hrun, hrun', hsame, hreported⟩ | ⟨f, s, s', hrun, hrun'⟩
  · obtain ⟨span, hparse⟩ := hok nodes s hrun
    obtain ⟨span', hparse'⟩ := hok' nodes' s' hrun'
    exact .inl ⟨_, _, hparse, hparse', hreported.problems fun h => h, hsame⟩
  · exact .inr ⟨f, (herror _ s hrun).1, (herror' _ s' hrun').1⟩

end

end TemplateCompiler
