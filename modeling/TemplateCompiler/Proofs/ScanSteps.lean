import TemplateCompiler.Proofs.Letters
import TemplateCompiler.Token.Scanner

/-!
# What one step of a scanner does

A step reads a token that lies ahead, behind blanks if the scanner is in a tag, and leaves the
scanner directly behind it. `Steps` says this together with the turns that a scanner can take from
one mode of reading to another, and where it can find a fault. Everything that holds of whole token
sequences is derived from `next_steps` alone.

A scanner behind the body of a comment relies on the closing delimiter that it found while it looked
for the end of the body; `Consistent` says that this is still ahead.
-/

namespace TemplateCompiler

/-! ## Kinds and modes -/

/-- The kinds of what stands in a tag, between its delimiters. -/
def TokenKind.isInner : TokenKind → Bool
  | .identifier | .keyword | .operator | .string | .number | .comma | .leftParen | .rightParen
  | .leftBracket | .rightBracket | .equals | .dot | .pipe | .colon => true
  | _ => false

/-- From one mode a token of some kind can lead to another. -/
inductive ScanMode.Turns : ScanMode → TokenKind → ScanMode → Prop
  | text : Turns .text .text .text
  | openTag {kind} (h : kind = .blockStart ∨ kind = .exprStart) : Turns .text kind .tag
  | openComment {p} : Turns .text .commentStart (.comment p)
  | comment {p marker} : Turns (.comment p) .comment (.commentEnd marker)
  | closeComment {marker} : Turns (.commentEnd marker) .commentEnd .text
  | inner {kind} (h : kind.isInner) : Turns .tag kind .tag
  | closeTag {kind} (h : kind = .blockEnd ∨ kind = .exprEnd) : Turns .tag kind .text
  | endOfText : Turns .text .eof .finished
  | endOfTag : Turns .tag .eof .finished

theorem ScanMode.Turns.finished_of_eof {mode mode' : ScanMode} (h : mode.Turns .eof mode') :
    mode' = .finished := by
  cases h with
  | openTag h | closeTag h => rcases h with h | h <;> cases h
  | inner h => cases h
  | endOfText | endOfTag => rfl

theorem ScanMode.Turns.eof_of_finished {mode : ScanMode} {kind : TokenKind}
    (h : mode.Turns kind .finished) : kind = .eof := by
  cases h <;> rfl

/-- No delimiter is empty. -/
def Delimiters.Solid (d : Delimiters) : Prop :=
  ∀ delimiter ∈ d.toList, delimiter.toList ≠ []

theorem Delimiters.check_standard : standard.check = .ok () := by
  have hfault : standard.fault? = none := by decide +kernel
  rw [check, hfault]

theorem Delimiters.delimiterFault?_eq_none_iff {s : String} :
    delimiterFault? s = none ↔ 2 ≤ s.toList.length ∧ ∀ c ∈ s.toList, Text.isBlank c = false := by
  unfold delimiterFault?
  rw [← String.length_toList]
  split
  · next hshort =>
      simp only [reduceCtorEq, false_iff, not_and]
      omega
  · next hlong =>
      split
      · next hblank =>
          obtain ⟨c, hc, hblank⟩ := List.any_eq_true.mp hblank
          simp only [reduceCtorEq, false_iff, not_and]
          exact fun _ hplain => by simp [hplain c hc] at hblank
      · next hblank => simpa using ⟨by omega, by simpa using hblank⟩

theorem Delimiters.overlapFault?_eq_none_iff {ss : List String} :
    overlapFault? ss = none ↔
      ss.Pairwise fun s t => ¬ s.toList <+: t.toList ∧ ¬ t.toList <+: s.toList := by
  induction ss with
  | nil => simp [overlapFault?]
  | cons s ss ih =>
      have hfirst : ss.find? (overlapping s) = none ↔
          ∀ t ∈ ss, ¬ s.toList <+: t.toList ∧ ¬ t.toList <+: s.toList := by
        simp [overlapping]
      rw [overlapFault?, List.pairwise_cons, ← ih, ← hfirst]
      cases ss.find? (overlapping s) with
      | none => simp
      | some t => simp

/-- What the check asks for. -/
theorem Delimiters.check_eq_ok_iff {d : Delimiters} :
    d.check = .ok () ↔
      (∀ s ∈ d.toList, 2 ≤ s.toList.length ∧ ∀ c ∈ s.toList, Text.isBlank c = false) ∧
        d.openers.Pairwise fun s t => ¬ s.toList <+: t.toList ∧ ¬ t.toList <+: s.toList := by
  rw [← overlapFault?_eq_none_iff]
  simp only [← delimiterFault?_eq_none_iff, ← List.findSome?_eq_none_iff]
  rw [← Option.or_eq_none_iff]
  show check d = .ok () ↔ d.fault? = none
  unfold check
  cases d.fault? with
  | none => simp
  | some f => simp

theorem Delimiters.solid_of_check {d : Delimiters} (h : d.check = .ok ()) : d.Solid := by
  intro delimiter hmem hempty
  have hlong := ((check_eq_ok_iff.mp h).1 delimiter hmem).1
  rw [hempty] at hlong
  cases hlong

@[simp]
theorem Position.advance_append (p : Position) (text more : List Char) :
    p.advance (text ++ more) = (p.advance text).advance more :=
  List.foldl_append

namespace Scanner

/-! ## Pieces of text -/

theorem beginsWith_iff {text : List Char} {delimiter : String} :
    beginsWith text delimiter = true ↔ delimiter.toList <+: text :=
  List.isPrefixOf_iff_prefix

theorem opener?_eq_some {d : Delimiters} {text : List Char} {opener : String} {kind : TokenKind}
    (h : opener? d text = some (opener, kind)) :
    opener ∈ d.openers ∧ opener.toList <+: text ∧ kind = openerKind d opener := by
  obtain ⟨o, ho, hpair⟩ := Option.map_eq_some_iff.mp h
  obtain ⟨rfl, rfl⟩ := Prod.mk.inj hpair
  exact ⟨List.mem_of_find?_eq_some ho, beginsWith_iff.mp (List.find?_some ho), rfl⟩

theorem openerKind_cases (d : Delimiters) (opener : String) :
    openerKind d opener = .commentStart ∨ openerKind d opener = .blockStart ∨
      openerKind d opener = .exprStart := by
  unfold openerKind
  split
  · exact .inl rfl
  · split
    · exact .inr (.inl rfl)
    · exact .inr (.inr rfl)

theorem leadingMarker_begins (text : List Char) : leadingMarker text <+: text := by
  unfold leadingMarker
  cases text with
  | nil => exact List.nil_prefix
  | cons c rest =>
      by_cases hc : Whitespace.isMarker c <;> simp [hc]

theorem beforeOpener_begins (d : Delimiters) (text : List Char) : beforeOpener d text <+: text := by
  induction text with
  | nil => exact List.prefix_rfl
  | cons c rest ih =>
      rw [beforeOpener]
      split
      · exact List.nil_prefix
      · exact (List.prefix_cons_inj c).mpr ih

theorem beforeDelimiter?_eq_some {delimiter : String} {text before : List Char}
    (h : beforeDelimiter? delimiter text = some before) :
    before ++ delimiter.toList <+: text := by
  induction text generalizing before with
  | nil =>
      rw [beforeDelimiter?] at h
      split at h
      · next hb =>
          obtain rfl := Option.some.inj h
          exact beginsWith_iff.mp hb
      · cases h
  | cons c rest ih =>
      rw [beforeDelimiter?] at h
      split at h
      · next hb =>
          obtain rfl := Option.some.inj h
          exact beginsWith_iff.mp hb
      · obtain ⟨before', hbefore, rfl⟩ := Option.map_eq_some_iff.mp h
        exact (List.prefix_cons_inj c).mpr (ih hbefore)

theorem splitMarker_append (body : List Char) :
    (splitMarker body).1 ++ (splitMarker body).2 = body := by
  unfold splitMarker
  split
  · next c hc =>
      obtain ⟨rest, rfl⟩ := List.getLast?_eq_some_iff.mp hc
      split
      · simp
      · exact List.append_nil _
  · exact List.append_nil body

theorem closer?_eq_some {d : Delimiters} {text : List Char} {closer : String} {kind : TokenKind}
    (h : closer? d text = some (closer, kind)) :
    closer ∈ d.toList ∧ closer.toList <+: text ∧ (kind = .blockEnd ∨ kind = .exprEnd) := by
  unfold closer? at h
  split at h
  · next hb =>
      obtain ⟨rfl, rfl⟩ := Prod.mk.inj (Option.some.inj h)
      exact ⟨by simp [Delimiters.toList], beginsWith_iff.mp hb, .inl rfl⟩
  · split at h
    · next hb =>
        obtain ⟨rfl, rfl⟩ := Prod.mk.inj (Option.some.inj h)
        exact ⟨by simp [Delimiters.toList], beginsWith_iff.mp hb, .inr rfl⟩
    · cases h

theorem markedCloser?_eq_some {d : Delimiters} {text marker : List Char} {closer : String}
    {kind : TokenKind} (h : markedCloser? d text = some (marker, closer, kind)) :
    closer ∈ d.toList ∧ marker ++ closer.toList <+: text ∧
      (kind = .blockEnd ∨ kind = .exprEnd) := by
  rcases Option.or_eq_some_iff.mp h with hmarked | ⟨-, hplain⟩
  · split at hmarked
    · next c rest =>
        split at hmarked
        · obtain ⟨⟨o, k⟩, hcloser, hpair⟩ := Option.map_eq_some_iff.mp hmarked
          obtain ⟨rfl, hrest⟩ := Prod.mk.inj hpair
          obtain ⟨rfl, rfl⟩ := Prod.mk.inj hrest
          obtain ⟨hmem, hbegins, hkind⟩ := closer?_eq_some hcloser
          exact ⟨hmem, (List.prefix_cons_inj c).mpr hbegins, hkind⟩
        · cases hmarked
    · cases hmarked
  · obtain ⟨⟨o, k⟩, hcloser, hpair⟩ := Option.map_eq_some_iff.mp hplain
    obtain ⟨rfl, hrest⟩ := Prod.mk.inj hpair
    obtain ⟨rfl, rfl⟩ := Prod.mk.inj hrest
    exact closer?_eq_some hcloser

theorem numberText_begins (text : List Char) : numberText text <+: text := by
  unfold numberText
  dsimp only
  split
  · next c rest hdrop =>
      split
      · have hsplit := List.takeWhile_append_dropWhile (p := continuesNumber) (l := text)
        rw [hdrop] at hsplit
        conv => rhs; rw [← hsplit]
        rw [List.prefix_append_right_inj, List.prefix_cons_inj]
        exact List.takeWhile_prefix _
      · exact List.takeWhile_prefix _
  · exact List.takeWhile_prefix _

theorem numberText_ne_nil {c : Char} {rest : List Char} (hc : Text.isDigit c = true) :
    numberText (c :: rest) ≠ [] := by
  have hwhole : (c :: rest).takeWhile continuesNumber ≠ [] := by
    rw [List.takeWhile_cons_of_pos (by simp [continuesNumber, hc])]
    exact List.cons_ne_nil _ _
  unfold numberText
  dsimp only
  split
  · split
    · simp [hwhole]
    · exact hwhole
  · exact hwhole

/-- The body of a string ends behind its closing quote. -/
theorem stringBody_eq_ok {opened place : Position} {quote : Char}
    {decoded text value rest : List Char}
    (h : stringBody opened quote place decoded text = .ok (value, rest)) : rest <:+ text := by
  fun_induction stringBody opened quote place decoded text with
  | case2 place decoded after =>
      obtain ⟨-, rfl⟩ := Prod.mk.inj (Except.ok.inj h)
      exact List.suffix_cons _ _
  | case4 place decoded e after d hd hquote ih =>
      exact (ih h).trans ((List.suffix_cons e after).trans (List.suffix_cons _ _))
  | case7 place decoded c after hquote hslash hnul ih =>
      exact (ih h).trans (List.suffix_cons c after)
  | _ => cases h

/-- A faulty string is reported from its opening quote or from a place in it. -/
theorem stringBody_eq_error {opened place start stop : Position} {quote : Char}
    {decoded text : List Char} {problem : LexicalProblem}
    (h : stringBody opened quote place decoded text = .error (problem, start, stop)) :
    ∃ a b, a ++ b <+: text ∧ stop = place.advance (a ++ b) ∧
      (start = opened ∨ start = place.advance a) := by
  -- behind characters that were read without fault, `a` grows by them
  have behind : ∀ {place : Position} (skipped : List Char) {text : List Char},
      (∃ a b, a ++ b <+: text ∧ stop = (place.advance skipped).advance (a ++ b) ∧
        (start = opened ∨ start = (place.advance skipped).advance a)) →
      ∃ a b, a ++ b <+: skipped ++ text ∧ stop = place.advance (a ++ b) ∧
        (start = opened ∨ start = place.advance a) := by
    rintro place skipped text ⟨a, b, hbegins, rfl, hstart⟩
    refine ⟨skipped ++ a, b, ?_, by simp, hstart.imp_right fun h => ?_⟩
    · rw [List.append_assoc, List.prefix_append_right_inj]
      exact hbegins
    · rw [h, Position.advance_append]
  fun_induction stringBody opened quote place decoded text with
  | case1 place =>
      cases h
      exact ⟨[], [], List.prefix_rfl, rfl, .inl rfl⟩
  | case2 => cases h
  | case3 place =>
      cases h
      exact ⟨[], ['\\'], List.prefix_rfl, rfl, .inl rfl⟩
  | case4 place decoded e after d hd hquote ih => exact behind ['\\', e] (ih h)
  | case5 place decoded e after hd hquote =>
      cases h
      exact ⟨[], ['\\', e], ⟨after, rfl⟩, rfl, .inr rfl⟩
  | case6 place =>
      cases h
      exact ⟨[], [], List.nil_prefix, rfl, .inr rfl⟩
  | case7 place decoded c after hquote hslash hnul ih => exact behind [c] (ih h)

/-! ## Steps -/

/-- The closing delimiter of a comment that was read up to its end is ahead. -/
def Consistent (s : Scanner) : Prop :=
  ∀ marker, s.mode = .commentEnd marker → marker ++ s.delimiters.commentEnd.toList <+: s.rest

/-- A step reads `t` behind `gap`, and `s'` stands behind both. -/
structure Emits (s : Scanner) (gap : List Char) (t : Token) (s' : Scanner) : Prop where
  ahead : s.rest = gap ++ t.raw.toList ++ s'.rest
  span : t.span = ⟨s.position.advance gap, s'.position, s.unit⟩
  place : s'.position = s.position.advance (gap ++ t.raw.toList)
  blank : ∀ c ∈ gap, isTagBlank c
  inTag : gap ≠ [] → s.mode = .tag
  turns : s.mode.Turns t.kind s'.mode
  opened : ∀ p, s'.mode = .comment p → p = s.position
  /-- Only the body of a comment and the end have no text of their own. -/
  solid : t.kind ≠ .comment → t.kind ≠ .eof → t.raw.toList ≠ []
  ended : t.kind = .eof → t.raw = "" ∧ s'.rest = []
  consistent : s'.Consistent
  delimiters : s'.delimiters = s.delimiters

/-- A fault is found ahead, or in a comment at its opening delimiter. -/
structure Faults (s : Scanner) (f : LexicalFault) : Prop where
  stop : ∃ a b, a ++ b <+: s.rest ∧ f.span.stop = s.position.advance (a ++ b) ∧
    (f.span.start = s.position.advance a ∨ b = [] ∧ a = [] ∧ s.mode = .comment f.span.start)
  unit : f.span.unit = s.unit

def Steps (s : Scanner) : ScanStep → Prop
  | .token t s' => ∃ gap, s.Emits gap t s'
  | .fault f => s.Faults f
  | .finished => s.mode = .finished

section

variable {s : Scanner} {kind : TokenKind} {value raw : List Char} {mode : ScanMode}

/-- A token that is read at the scanner's place. -/
theorem emit_steps (hraw : raw <+: s.rest) (hturns : s.mode.Turns kind mode)
    (hopened : ∀ p, mode = .comment p → p = s.position)
    (hsolid : kind ≠ .comment → kind ≠ .eof → raw ≠ [])
    (hended : kind = .eof → raw = [] ∧ s.rest = [])
    (hmarker : ∀ marker, mode = .commentEnd marker →
      marker ++ s.delimiters.commentEnd.toList <+: s.rest.drop raw.length) :
    s.Steps (s.emit kind value raw mode) := by
  refine ⟨[], ?_⟩
  have hahead : s.rest = raw ++ s.rest.drop raw.length := by
    obtain ⟨after, hafter⟩ := hraw
    rw [← hafter, List.drop_left]
  refine { ahead := ?_, span := rfl, place := ?_, blank := List.forall_mem_nil _,
           inTag := fun h => absurd rfl h, turns := hturns, opened := hopened, solid := ?_,
           ended := fun hkind => ?_, consistent := hmarker, delimiters := rfl }
  · simpa using hahead
  · simp
  · simpa using hsolid
  · obtain ⟨rfl, hrest⟩ := hended hkind
    exact ⟨rfl, hrest⟩

/-- A token that is read at the scanner's place, between tags or in one. -/
theorem emit_steps_of_ne (hraw : raw <+: s.rest) (hne : raw ≠ [])
    (hturns : s.mode.Turns kind mode) (hmode : mode = .text ∨ mode = .tag) :
    s.Steps (s.emit kind value raw mode) := by
  refine emit_steps hraw hturns ?_ (fun _ _ => hne) ?_ ?_
  · rintro p rfl
    rcases hmode with h | h <;> cases h
  · rintro rfl
    obtain rfl := hturns.finished_of_eof
    rcases hmode with h | h <;> cases h
  · rintro marker rfl
    rcases hmode with h | h <;> cases h

theorem finish_steps (h : s.mode = .text ∨ s.mode = .tag) (hs : s.rest = []) :
    s.Steps s.finish := by
  refine emit_steps List.nil_prefix ?_ nofun (fun _ h => absurd rfl h) (fun _ => ⟨rfl, hs⟩) nofun
  rcases h with h | h
  · rw [h]
    exact .endOfText
  · rw [h]
    exact .endOfTag

/-- A fault that is found at a place ahead. -/
theorem fail_steps {problem : LexicalProblem} {a b : List Char} (h : a ++ b <+: s.rest) :
    s.Steps (s.fail problem (s.position.advance a) (s.position.advance (a ++ b))) :=
  ⟨⟨a, b, h, rfl, .inl rfl⟩, rfl⟩

/-- What is read behind the blanks in a tag is read from before them. -/
theorem Steps.of_skipBlanks {step : ScanStep} (hmode : s.mode = .tag)
    (h : s.skipBlanks.Steps step) : s.Steps step := by
  obtain ⟨blanks, hblanks⟩ : ∃ blanks, s.rest.takeWhile isTagBlank = blanks := ⟨_, rfl⟩
  have hsplit : s.rest = blanks ++ s.skipBlanks.rest := by
    rw [← hblanks]
    exact List.takeWhile_append_dropWhile.symm
  have hplace : s.skipBlanks.position = s.position.advance blanks := by
    rw [← hblanks]
    rfl
  have hblank : ∀ c ∈ blanks, isTagBlank c := by
    rw [← hblanks]
    exact List.all_eq_true.mp List.all_takeWhile
  have hskipped : s.skipBlanks.mode = .tag := hmode
  cases step with
  | token t s' =>
      obtain ⟨gap, he⟩ := h
      refine ⟨blanks ++ gap,
        { ahead := ?_, span := ?_, place := ?_, blank := ?_, inTag := fun _ => hmode,
          turns := he.turns, opened := ?_, solid := he.solid, ended := he.ended,
          consistent := he.consistent, delimiters := he.delimiters }⟩
      · rw [hsplit, he.ahead]
        simp
      · rw [he.span, hplace, Position.advance_append]
        rfl
      · rw [he.place, hplace]
        simp
      · intro c hc
        exact (List.mem_append.mp hc).elim (hblank c) (he.blank c)
      · intro p hp
        have hturns := he.turns
        rw [hp, hskipped] at hturns
        generalize t.kind = kind at hturns
        cases hturns
  | fault f =>
      obtain ⟨⟨a, b, hbegins, hstop, hstart⟩, hunit⟩ := h
      refine ⟨⟨blanks ++ a, b, ?_, ?_, .inl ?_⟩, hunit⟩
      · rw [hsplit, List.append_assoc, List.prefix_append_right_inj]
        exact hbegins
      · rw [hstop, hplace]
        simp
      · rcases hstart with hstart | ⟨-, -, hcomment⟩
        · rw [hstart, hplace, Position.advance_append]
        · rw [hskipped] at hcomment
          cases hcomment
  | finished => exact h

end

section

variable {s : Scanner} (hd : s.delimiters.Solid)

include hd

theorem nextText_steps (hmode : s.mode = .text) : s.Steps s.nextText := by
  unfold nextText
  split
  · next hs => exact finish_steps (.inl hmode) hs
  · next hne =>
      split
      · next opener kind hopener =>
          obtain ⟨hmem, hbegins, rfl⟩ := opener?_eq_some hopener
          have hopen : opener.toList ≠ [] :=
            hd opener (by
              simp only [Delimiters.openers, List.mem_cons, List.not_mem_nil, or_false] at hmem
              rcases hmem with rfl | rfl | rfl <;> simp [Delimiters.toList])
          obtain ⟨after, hafter⟩ := hbegins
          have hraw :
              opener.toList ++ leadingMarker (s.rest.drop opener.toList.length) <+: s.rest := by
            rw [← hafter, List.drop_left, List.prefix_append_right_inj]
            exact leadingMarker_begins after
          refine emit_steps hraw ?_ ?_ (fun _ _ => by simp [hopen]) ?_ ?_
          · rw [hmode]
            rcases openerKind_cases s.delimiters opener with h | h | h
            · rw [h]
              exact .openComment
            · rw [h]
              exact .openTag (.inl rfl)
            · rw [h]
              exact .openTag (.inr rfl)
          · intro p hp
            split at hp
            · exact (ScanMode.comment.inj hp).symm
            · cases hp
          · intro hkind
            rcases openerKind_cases s.delimiters opener with h | h | h <;> cases h.symm.trans hkind
          · intro marker hmarker
            split at hmarker <;> cases hmarker
      · next hopener =>
          dsimp only
          have hbegins := beforeOpener_begins s.delimiters s.rest
          split
          · have h : s.Steps (s.fail .nulCharacter _ _) := fail_steps (b := [])
              (a := (beforeOpener s.delimiters s.rest).takeWhile (· ≠ '\x00'))
              (by rw [List.append_nil]; exact (List.takeWhile_prefix _).trans hbegins)
            rwa [List.append_nil] at h
          · refine emit_steps_of_ne hbegins ?_ (hmode ▸ .text) (.inl rfl)
            obtain ⟨c, rest, hs⟩ := List.exists_cons_of_ne_nil hne
            rw [hs] at hopener ⊢
            rw [beforeOpener, hopener]
            exact List.cons_ne_nil _ _

omit hd in
theorem nextComment_steps {opened : Position} (hmode : s.mode = .comment opened) :
    s.Steps (s.nextComment opened) := by
  unfold nextComment
  split
  · exact ⟨⟨[], [], List.nil_prefix, rfl, .inr ⟨rfl, rfl, hmode⟩⟩, rfl⟩
  · next all hall =>
      have hbegins := beforeDelimiter?_eq_some hall
      have hsplit := splitMarker_append all
      generalize splitMarker all = parts at hsplit ⊢
      obtain ⟨body, marker⟩ := parts
      obtain rfl : body ++ marker = all := hsplit
      rw [List.append_assoc] at hbegins
      dsimp only
      refine emit_steps ((List.prefix_append _ _).trans hbegins) (hmode ▸ .comment) nofun
        (fun h => absurd rfl h) nofun ?_
      rintro _ ⟨⟩
      obtain ⟨after, hafter⟩ := hbegins
      rw [← hafter, List.append_assoc, List.drop_left]
      exact List.prefix_append _ _

theorem nextCommentEnd_steps {marker : List Char} (hs : s.Consistent)
    (hmode : s.mode = .commentEnd marker) : s.Steps (s.nextCommentEnd marker) := by
  refine emit_steps_of_ne (hs marker hmode) ?_ (hmode ▸ .closeComment) (.inl rfl)
  have hsolid := hd s.delimiters.commentEnd (by simp [Delimiters.toList])
  simp [hsolid]

omit hd in
theorem nextString_steps {quote : Char} {body : List Char} (hmode : s.mode = .tag)
    (hs : s.rest = quote :: body) : s.Steps (s.nextString quote body) := by
  unfold nextString
  split
  · next problem start stop hbody =>
      obtain ⟨a, b, hbegins, rfl, hstart⟩ := stringBody_eq_error hbody
      have hahead : quote :: a ++ b <+: s.rest := by
        rw [hs]
        exact (List.prefix_cons_inj quote).mpr hbegins
      rcases hstart with rfl | rfl
      · exact fail_steps (a := []) hahead
      · exact fail_steps (a := quote :: a) hahead
  · next value rest hbody =>
      obtain ⟨read, hread⟩ := stringBody_eq_ok hbody
      refine emit_steps_of_ne (List.take_prefix _ _) ?_ (hmode ▸ .inner rfl) (.inr rfl)
      rw [hs, ← hread]
      simp only [List.length_cons, List.length_append]
      rw [show read.length + rest.length + 1 - rest.length = read.length + 1 by omega]
      exact List.cons_ne_nil _ _

omit hd in
theorem nextSign_steps {c : Char} {rest : List Char} (hmode : s.mode = .tag)
    (hs : s.rest = c :: rest) : s.Steps (s.nextSign c) := by
  have hfirst : [c] <+: s.rest := ⟨rest, by rw [hs]; rfl⟩
  unfold nextSign
  split
  · next sign hsign =>
      have hmem := List.mem_of_find?_eq_some hsign
      have hne : ∀ sign ∈ Token.operators, sign.toList ≠ [] := by decide
      exact emit_steps_of_ne (beginsWith_iff.mp (List.find?_some hsign)) (hne sign hmem)
        (hmode ▸ .inner rfl) (.inr rfl)
  · split
    · next kind hkind =>
        have hinner : kind.isInner := by
          unfold Token.punctuation? at hkind
          split at hkind <;> cases hkind <;> rfl
        exact emit_steps_of_ne hfirst (List.cons_ne_nil _ _) (hmode ▸ .inner hinner) (.inr rfl)
    · exact fail_steps (a := []) hfirst

theorem nextInTag_steps (hmode : s.mode = .tag) : s.Steps s.nextInTag := by
  unfold nextInTag
  split
  · next hs => exact finish_steps (.inr hmode) hs
  · next c rest hs =>
      split
      · next marker closer kind hcloser =>
          obtain ⟨hmem, hbegins, hkind⟩ := markedCloser?_eq_some hcloser
          have hne := hd closer hmem
          exact emit_steps_of_ne hbegins (by simp [hne]) (hmode ▸ .closeTag hkind) (.inl rfl)
      · split
        · exact fail_steps (a := []) (b := []) List.nil_prefix
        · split
          · next hc =>
              refine emit_steps_of_ne (List.takeWhile_prefix _) ?_ (hmode ▸ .inner ?_) (.inr rfl)
              · rw [hs, List.takeWhile_cons_of_pos (Token.continuesIdentifier_of_starts hc)]
                exact List.cons_ne_nil _ _
              · split <;> rfl
          · split
            · next hc =>
                refine emit_steps_of_ne (numberText_begins _) ?_ (hmode ▸ .inner rfl) (.inr rfl)
                rw [hs]
                exact numberText_ne_nil hc
            · split
              · exact nextString_steps hmode hs
              · exact nextSign_steps hmode hs

/-- What one step does, in every mode. -/
theorem next_steps (hs : s.Consistent) : s.Steps s.next := by
  unfold next
  split
  · next hmode => exact nextText_steps hd hmode
  · next hmode => exact (nextInTag_steps (s := s.skipBlanks) hd hmode).of_skipBlanks hmode
  · next hmode => exact nextComment_steps hmode
  · next hmode => exact nextCommentEnd_steps hd hs hmode
  · next hmode => exact hmode

end

/-! ## Runs -/

theorem run_finished {s : Scanner} (h : s.mode = .finished) (fuel : Nat) :
    s.run fuel = ([], none) := by
  cases fuel with
  | zero => rfl
  | succ fuel => rw [run, next, h]

/-- An upper bound for the number of tokens that are still to come. Only the body of a comment can
be empty, and the end of the comment follows it. -/
def weight (s : Scanner) : Nat :=
  match s.mode with
  | .finished => 0
  | .commentEnd _ => 2 * s.rest.length
  | _ => 2 * s.rest.length + 1

theorem Emits.weight_lt {s s' : Scanner} {gap : List Char} {t : Token} (he : s.Emits gap t s') :
    s'.weight < s.weight := by
  have hlength : s.rest.length = gap.length + t.raw.toList.length + s'.rest.length := by
    rw [he.ahead, List.length_append, List.length_append]
  have hsolid : t.kind ≠ .comment → t.kind ≠ .eof → 0 < t.raw.toList.length :=
    fun hcomment heof => List.length_pos_iff.mpr (he.solid hcomment heof)
  have hturns := he.turns
  unfold weight
  generalize s.mode = mode, s'.mode = mode', t.kind = kind at hturns hsolid
  cases hturns with
  | text | openComment | closeComment =>
      have hpos := hsolid nofun nofun
      dsimp only
      omega
  | openTag h | closeTag h =>
      have hpos := hsolid (by rcases h with rfl | rfl <;> nofun)
        (by rcases h with rfl | rfl <;> nofun)
      dsimp only
      omega
  | inner h =>
      have hpos := hsolid (by rintro rfl; cases h) (by rintro rfl; cases h)
      dsimp only
      omega
  | comment | endOfText | endOfTag =>
      dsimp only
      omega

/-- What every step preserves holds of a whole run. A run stops at a fault or, with enough fuel, at
the end. -/
theorem run_preserves {P : List Token → Scanner → Prop}
    (hstep : ∀ ts s gap t s', P ts s → s.Emits gap t s' → P (ts ++ [t]) s') :
    ∀ (fuel : Nat) (ts : List Token) (s : Scanner), P ts s → s.delimiters.Solid → s.Consistent →
      ∃ s', P (ts ++ (run fuel s).1) s' ∧ (∀ f, (run fuel s).2 = some f → s'.Faults f) ∧
        ((run fuel s).2 = none → s.weight ≤ fuel → s'.mode = .finished) := by
  intro fuel
  induction fuel with
  | zero =>
      intro ts s hP hd hs
      refine ⟨s, by simpa [run] using hP, nofun, fun _ hweight => ?_⟩
      unfold weight at hweight
      split at hweight
      · assumption
      · next hmode =>
          have h := hs _ hmode
          have hlength := h.length_le
          have hpos :=
            List.length_pos_iff.mpr (hd s.delimiters.commentEnd (by simp [Delimiters.toList]))
          rw [List.length_append] at hlength
          omega
      · omega
  | succ fuel ih =>
      intro ts s hP hd hs
      have hsteps := next_steps hd hs
      rw [run]
      split
      · next hnext =>
          rw [hnext] at hsteps
          exact ⟨s, by simpa using hP, nofun, fun _ _ => hsteps⟩
      · next f hnext =>
          rw [hnext] at hsteps
          refine ⟨s, by simpa using hP, ?_, nofun⟩
          rintro _ ⟨⟩
          exact hsteps
      · next t s₁ hnext =>
          rw [hnext] at hsteps
          obtain ⟨gap, he⟩ := hsteps
          obtain ⟨s', hP', hfault, hend⟩ :=
            ih (ts ++ [t]) s₁ (hstep ts s gap t s₁ hP he) (he.delimiters ▸ hd) he.consistent
          rw [List.append_assoc] at hP'
          refine ⟨s', hP', hfault, fun hnone hweight => hend hnone ?_⟩
          have hlt := he.weight_lt
          omega

end Scanner

/-! ## The kinds of tokens in a row -/

/-- Read from this mode on, the kinds of the tokens lead from one mode to the next. -/
def ScanMode.Follows : ScanMode → List Token → Prop
  | _, [] => True
  | mode, t :: ts => ∃ mode', mode.Turns t.kind mode' ∧ mode'.Follows ts

namespace ScanMode.Follows

variable {t : Token} {ts us : List Token}

theorem of_finished (h : ScanMode.finished.Follows ts) : ts = [] := by
  cases ts with
  | nil => rfl
  | cons t ts =>
      obtain ⟨mode', hturns, -⟩ := h
      cases hturns

/-- Between tags stands a text, a comment or a tag, or the end. -/
theorem of_text (h : ScanMode.text.Follows (t :: ts)) :
    t.kind = .text ∧ ScanMode.text.Follows ts ∨
      (t.kind = .blockStart ∨ t.kind = .exprStart) ∧ ScanMode.tag.Follows ts ∨
      t.kind = .commentStart ∧ (∃ p, (ScanMode.comment p).Follows ts) ∨
      t.kind = .eof ∧ ts = [] := by
  obtain ⟨mode', hturns, h⟩ := h
  generalize t.kind = kind at hturns ⊢
  cases hturns with
  | text => exact .inl ⟨rfl, h⟩
  | openTag hopen => exact .inr (.inl ⟨hopen, h⟩)
  | openComment => exact .inr (.inr (.inl ⟨rfl, _, h⟩))
  | endOfText => exact .inr (.inr (.inr ⟨rfl, h.of_finished⟩))

theorem behind_text (h : ScanMode.text.Follows (t :: ts)) (ht : t.kind = .text) :
    ScanMode.text.Follows ts := by
  obtain ⟨mode', hturns, h⟩ := h
  rw [ht] at hturns
  cases hturns with
  | text => exact h
  | openTag hopen => rcases hopen with hopen | hopen <;> cases hopen

theorem behind_opener (h : ScanMode.text.Follows (t :: ts))
    (ht : t.kind = .blockStart ∨ t.kind = .exprStart) : ScanMode.tag.Follows ts := by
  obtain ⟨mode', hturns, h⟩ := h
  rcases ht with ht | ht <;> (rw [ht] at hturns; cases hturns; exact h)

theorem behind_commentStart (h : ScanMode.text.Follows (t :: ts)) (ht : t.kind = .commentStart) :
    ∃ p, (ScanMode.comment p).Follows ts := by
  obtain ⟨mode', hturns, h⟩ := h
  rw [ht] at hturns
  cases hturns with
  | openComment => exact ⟨_, h⟩
  | openTag hopen => rcases hopen with hopen | hopen <;> cases hopen

theorem of_tag (h : ScanMode.tag.Follows (t :: ts)) :
    t.kind.isInner ∧ ScanMode.tag.Follows ts ∨
      (t.kind = .blockEnd ∨ t.kind = .exprEnd) ∧ ScanMode.text.Follows ts ∨
      t.kind = .eof ∧ ts = [] := by
  obtain ⟨mode', hturns, h⟩ := h
  generalize t.kind = kind at hturns ⊢
  cases hturns with
  | inner hinner => exact .inl ⟨hinner, h⟩
  | closeTag hclose => exact .inr (.inl ⟨hclose, h⟩)
  | endOfTag => exact .inr (.inr ⟨rfl, h.of_finished⟩)

theorem of_comment {p : Position} (h : (ScanMode.comment p).Follows (t :: ts)) :
    t.kind = .comment ∧ ∃ marker, (ScanMode.commentEnd marker).Follows ts := by
  obtain ⟨mode', hturns, h⟩ := h
  generalize t.kind = kind at hturns ⊢
  cases hturns with
  | comment => exact ⟨rfl, _, h⟩

theorem of_commentEnd {marker : List Char} (h : (ScanMode.commentEnd marker).Follows (t :: ts)) :
    t.kind = .commentEnd ∧ ScanMode.text.Follows ts := by
  obtain ⟨mode', hturns, h⟩ := h
  generalize t.kind = kind at hturns ⊢
  cases hturns with
  | closeComment => exact ⟨rfl, h⟩

theorem behind_inner (hus : ∀ t ∈ us, t.kind.isInner) (h : ScanMode.tag.Follows (us ++ ts)) :
    ScanMode.tag.Follows ts := by
  induction us with
  | nil => exact h
  | cons u us ih =>
      obtain ⟨hu, hus⟩ := List.forall_mem_cons.mp hus
      rcases h.of_tag with ⟨-, h⟩ | ⟨hclose, -⟩ | ⟨heof, -⟩
      · exact ih hus h
      · rcases hclose with hkind | hkind <;> simp [hkind, TokenKind.isInner] at hu
      · simp [heof, TokenKind.isInner] at hu

/-- A tag ends at a delimiter that closes it, or with the tokens. -/
theorem tag_cut (h : ScanMode.tag.Follows ts) :
    ∃ us rest, ts = us ++ rest ∧ (∀ t ∈ us, t.kind.isInner) ∧
      ((∃ close more, rest = close :: more ∧ (close.kind = .blockEnd ∨ close.kind = .exprEnd) ∧
          ScanMode.text.Follows more) ∨
        ∀ t ∈ rest, t.kind = .eof ∧ rest = [t]) := by
  induction ts with
  | nil => exact ⟨[], [], rfl, List.forall_mem_nil _, .inr (List.forall_mem_nil _)⟩
  | cons t ts ih =>
      rcases h.of_tag with ⟨ht, hts⟩ | ⟨hclose, hts⟩ | ⟨heof, rfl⟩
      · obtain ⟨us, rest, rfl, hus, hrest⟩ := ih hts
        exact ⟨t :: us, rest, rfl, List.forall_mem_cons.mpr ⟨ht, hus⟩, hrest⟩
      · exact ⟨[], t :: ts, rfl, List.forall_mem_nil _, .inl ⟨t, ts, rfl, hclose, hts⟩⟩
      · exact ⟨[], [t], rfl, List.forall_mem_nil _, .inr (by simpa using heof)⟩

end ScanMode.Follows

theorem Scanner.run_follows (fuel : Nat) (s : Scanner) (hd : s.delimiters.Solid)
    (hs : s.Consistent) : s.mode.Follows (run fuel s).1 := by
  induction fuel generalizing s with
  | zero => trivial
  | succ fuel ih =>
      have hsteps := next_steps hd hs
      rw [run]
      split
      · trivial
      · trivial
      · next t s' hnext =>
          rw [hnext] at hsteps
          obtain ⟨gap, he⟩ := hsteps
          exact ⟨s'.mode, he.turns, ih s' (he.delimiters ▸ hd) he.consistent⟩

theorem tokenize_follows {delimiters : Delimiters} (hd : delimiters.check = .ok ())
    (source unit : String) : ScanMode.text.Follows (tokenize source unit delimiters).1 :=
  Scanner.run_follows _ (.ofSource source unit delimiters) (Delimiters.solid_of_check hd) nofun

end TemplateCompiler
