import TemplateCompiler.Proofs.WrittenLexemes

/-!
# Sources that are written are scanned

A source is written as a sequence of parts: text, comments, and tags that hold lexemes set off
by single spaces, with whitespace markers on the delimiters or without. Where text can be told from
what follows it, the scanner reads the parts back, `tokenize_parts`.
-/

namespace TemplateCompiler

/-! ## Parts of a source -/

/-- The marker for a choice of whitespace; without a choice, none. -/
def Whitespace.marker : Option Whitespace → List Char
  | none => []
  | some .suppress => ['-']
  | some .minimize => ['~']
  | some .preserve => ['+']

inductive TagKind where
  | block
  | output

namespace TagKind

def opener : TagKind → String
  | .block => Delimiters.standard.blockStart
  | .output => Delimiters.standard.exprStart

def closer : TagKind → String
  | .block => Delimiters.standard.blockEnd
  | .output => Delimiters.standard.exprEnd

def opens : TagKind → TokenKind
  | .block => .blockStart
  | .output => .exprStart

def closes : TagKind → TokenKind
  | .block => .blockEnd
  | .output => .exprEnd

end TagKind

/-- A part of a source. An item of a tag is a lexeme and the text that it is written as; `left` and
`right` are the markers of the two delimiters. -/
inductive SourcePart where
  | text (value : String)
  | comment (left : Option Whitespace) (body : String) (right : Option Whitespace)
  | tag (kind : TagKind) (left : Option Whitespace) (items : List (Lexeme × List Char))
      (right : Option Whitespace)

namespace SourcePart

/-- Each item of a tag stands behind a space, and one more stands before the closing delimiter. -/
def source : SourcePart → List Char
  | .text value => value.toList
  | .comment left body right =>
    Delimiters.standard.commentStart.toList ++ (Whitespace.marker left ++
      (body.toList ++ (Whitespace.marker right ++ Delimiters.standard.commentEnd.toList)))
  | .tag kind left items right =>
    kind.opener.toList ++ (Whitespace.marker left ++ (items.flatMap (fun item => ' ' :: item.2) ++
      ' ' :: (Whitespace.marker right ++ kind.closer.toList)))

def lexemes : SourcePart → List Lexeme
  | .text value => [(.text, value)]
  | .comment left body right =>
    [(.commentStart, String.ofList (Whitespace.marker left)), (.comment, body),
      (.commentEnd, String.ofList (Whitespace.marker right))]
  | .tag kind left items right =>
    (kind.opens, String.ofList (Whitespace.marker left)) ::
      (items.map Prod.fst ++ [(kind.closes, String.ofList (Whitespace.marker right))])

def WellFormed : SourcePart → Prop
  | .text value => value ≠ "" ∧ '\x00' ∉ value.toList
  | .comment _ body _ =>
    body.toList.head? = some ' ' ∧ body.toList.getLast? = some ' ' ∧
      ¬ Delimiters.standard.commentEnd.toList <:+: body.toList
  | .tag _ _ items _ => ∀ item ∈ items, item.1.Written item.2

/-- The delimiter that opens the first of the parts. -/
def firstOpener : List SourcePart → List Char
  | .comment _ _ _ :: _ => Delimiters.standard.commentStart.toList
  | .tag kind _ _ _ :: _ => kind.opener.toList
  | _ => []

/-- No text has another one directly behind it, and no opening delimiter starts in a text that is
followed by one. -/
def Separate : List SourcePart → Prop
  | [] => True
  | .text value :: rest =>
    (∀ other more, rest ≠ .text other :: more) ∧
      (∀ n < value.toList.length, ∀ opener ∈ Delimiters.standard.openers,
        ¬ opener.toList <+: (value.toList ++ firstOpener rest).drop n) ∧ Separate rest
  | _ :: rest => Separate rest

end SourcePart

namespace Scanner

variable {rest : List Char} {ls : List Lexeme} {problem : Option LexicalProblem}

/-! ## Delimiters -/

open Whitespace (marker)

/-- A marker is read off when a space or a delimiter follows, whose first character is none. -/
theorem leadingMarker_eq (left : Option Whitespace) (text : List Char) :
    leadingMarker (marker left ++ ' ' :: text) = marker left := by
  rcases left with _ | _ | _ | _ <;> rfl

/-- An opening delimiter with its marker. Behind it a comment goes on in its own mode. -/
theorem next_opener {s : Scanner} {opener : String} {opens : TokenKind} {left : Option Whitespace}
    {text : List Char} (hmode : s.mode = .text) (hne : opener.toList ≠ [])
    (hs : s.rest = opener.toList ++ (marker left ++ ' ' :: text))
    (hopener : opener? s.delimiters s.rest = some (opener, opens)) :
    s.next = s.emit opens (marker left) (opener.toList ++ marker left)
      (if opens = .commentStart then .comment s.position else .tag) := by
  obtain ⟨c, more, hchars⟩ : ∃ c more, s.rest = c :: more :=
    List.exists_cons_of_ne_nil (by simp [hs, hne])
  have hmarker : leadingMarker (s.rest.drop opener.toList.length) = marker left := by
    rw [hs, List.drop_left, leadingMarker_eq]
  rw [hchars] at hopener
  rw [next, hmode]
  dsimp only
  rw [nextText, hchars]
  dsimp only
  rw [hopener]
  dsimp only
  rw [nextOpener, hmarker]

theorem scans_opener {opener : String} {opens : TokenKind} (left : Option Whitespace)
    {text : List Char} (hne : opener.toList ≠ [])
    (hopener : ∀ text, opener? .standard (opener.toList ++ text) = some (opener, opens))
    (h : ∀ p, Scans (if opens = .commentStart then .comment p else .tag) (' ' :: text) ls problem) :
    Scans .text (opener.toList ++ (marker left ++ ' ' :: text))
      ((opens, String.ofList (marker left)) :: ls) problem := by
  have hlength : 0 < opener.toList.length := List.length_pos_iff.mpr hne
  have hlt : (' ' :: text).length < (opener.toList ++ (marker left ++ ' ' :: text)).length := by
    simp only [List.length_append]
    omega
  refine scans_emit (opener.toList ++ marker left) (' ' :: text) hlt fun s hd hmode hs => ?_
  refine ⟨s, _, hd, by rw [hs, List.append_assoc], ?_, h s.position⟩
  exact next_opener hmode hne hs (by rw [hd, hs, hopener])

/-- A closing delimiter of a tag with its marker, behind a space. -/
theorem scans_closer (kind : TagKind) (right : Option Whitespace)
    (h : Scans .text rest ls problem) :
    Scans .tag (' ' :: (marker right ++ kind.closer.toList ++ rest))
      ((kind.closes, String.ofList (marker right)) :: ls) problem := by
  obtain ⟨c, raw, heq, hblank, hcloser⟩ : ∃ c raw, marker right ++ kind.closer.toList = c :: raw ∧
      isTagBlank c = false ∧ ∀ rest, markedCloser? .standard (c :: (raw ++ rest)) =
        some (marker right, kind.closer, kind.closes) := by
    rcases right with _ | _ | _ | _ <;> cases kind <;> exact ⟨_, _, rfl, rfl, fun _ => rfl⟩
  rw [heq, List.cons_append]
  refine (scans_inTag hblank (fun s hd hs => ?_) h).blank
  rw [nextInTag, hs]
  dsimp only
  rw [hd, hcloser]
  dsimp only
  rw [heq]

/-! ## Tags -/

theorem items_start_blank (items : List (Lexeme × List Char)) (rest : List Char) :
    ∃ text, items.flatMap (fun item => ' ' :: item.2) ++ ' ' :: rest = ' ' :: text := by
  cases items with
  | nil => exact ⟨rest, rfl⟩
  | cons => exact ⟨_, rfl⟩

theorem scans_items {items : List (Lexeme × List Char)}
    (hitems : ∀ item ∈ items, item.1.Written item.2) (h : Scans .tag (' ' :: rest) ls problem) :
    Scans .tag (items.flatMap (fun item => ' ' :: item.2) ++ ' ' :: rest)
      (items.map Prod.fst ++ ls) problem := by
  induction items with
  | nil => exact h
  | cons item items ih =>
      obtain ⟨hitem, hitems⟩ := List.forall_mem_cons.mp hitems
      have hrest := ih hitems
      obtain ⟨text, htext⟩ := items_start_blank items rest
      rw [htext] at hrest
      rw [List.flatMap_cons, List.append_assoc, htext]
      exact (scans_written hitem (apart_blank text) hrest).blank

theorem scans_tag {kind : TagKind} {left right : Option Whitespace}
    {items : List (Lexeme × List Char)} (hitems : ∀ item ∈ items, item.1.Written item.2)
    (h : Scans .text rest ls problem) :
    Scans .text ((SourcePart.tag kind left items right).source ++ rest)
      ((SourcePart.tag kind left items right).lexemes ++ ls) problem := by
  have hinside := scans_items hitems (scans_closer kind right h)
  obtain ⟨text, htext⟩ := items_start_blank items (marker right ++ kind.closer.toList ++ rest)
  have hopens : kind.opens ≠ .commentStart := by cases kind <;> decide
  rw [htext] at hinside
  have hopener : ∀ text, opener? .standard (kind.opener.toList ++ text) =
      some (kind.opener, kind.opens) := by
    cases kind <;> exact fun _ => rfl
  have hscans := scans_opener left (by cases kind <;> decide) hopener
    (fun _ => by rw [if_neg hopens]; exact hinside)
  rw [← htext] at hscans
  simpa [SourcePart.source, SourcePart.lexemes] using hscans

/-! ## Comments -/

/-- The text before a delimiter of a comment. As the two characters of the delimiter differ, it
cannot start in the text and end behind. -/
theorem beforeDelimiter?_commentEnd {text : List Char}
    (h : ¬ Delimiters.standard.commentEnd.toList <:+: text) (rest : List Char) :
    beforeDelimiter? Delimiters.standard.commentEnd
      (text ++ (Delimiters.standard.commentEnd.toList ++ rest)) = some text := by
  have hchars : Delimiters.standard.commentEnd.toList = ['#', '\x7d'] := rfl
  rw [hchars] at h ⊢
  induction text with
  | nil => rfl
  | cons c text ih =>
      have hnot : beginsWith (c :: (text ++ (['#', '\x7d'] ++ rest)))
          Delimiters.standard.commentEnd = false := by
        rw [Bool.eq_false_iff, Ne, beginsWith_iff, hchars]
        rintro ⟨more, hmore⟩
        rcases List.cons.inj hmore with ⟨hc, hmore⟩
        cases text with
        | nil => cases hmore
        | cons d text =>
            rcases List.cons.inj hmore with ⟨hd, -⟩
            exact h ⟨[], text, by rw [← hc, ← hd]; rfl⟩
      rw [List.cons_append, beforeDelimiter?, hnot, if_neg (by decide),
        ih fun hinside => h (hinside.trans (List.suffix_cons c text).isInfix)]
      rfl

/-- A marker does not end the delimiter behind the body of a comment. -/
theorem not_commentEnd_of_marker {body : List Char}
    (h : ¬ Delimiters.standard.commentEnd.toList <:+: body) (right : Option Whitespace) :
    ¬ Delimiters.standard.commentEnd.toList <:+: body ++ marker right := by
  have hchars : Delimiters.standard.commentEnd.toList = ['#', '\x7d'] := rfl
  rw [hchars] at h ⊢
  intro hinside
  have hlast : ∀ m : Char, m ≠ '\x7d' → ¬ ['#', '\x7d'] <:+: body ++ [m] := by
    intro m hm hinside
    rcases List.infix_concat_iff.mp hinside with hsuffix | hinside
    · rcases List.suffix_concat_iff.mp hsuffix with hnil | ⟨t, ht, -⟩
      · cases hnil
      · obtain ⟨-, heq⟩ := List.append_inj' (show ['#'] ++ ['\x7d'] = t ++ [m] from ht) rfl
        exact hm (List.cons.inj heq).1.symm
    · exact h hinside
  rcases right with _ | _ | _ | _
  · exact h (by simpa [marker] using hinside)
  · exact hlast _ (by decide) hinside
  · exact hlast _ (by decide) hinside
  · exact hlast _ (by decide) hinside

/-- The body of a comment ends in a space, so that the marker behind it is all of it that is one. -/
theorem splitMarker_eq {body : List Char} (hbody : body.getLast? = some ' ')
    (right : Option Whitespace) : splitMarker (body ++ marker right) = (body, marker right) := by
  have hlast : ∀ m : Char, Whitespace.isMarker m = true →
      splitMarker (body ++ [m]) = (body, [m]) := by
    intro m hm
    rw [splitMarker, List.getLast?_concat]
    dsimp only
    rw [if_pos hm, List.dropLast_concat]
  rcases right with _ | _ | _ | _
  · rw [marker, List.append_nil, splitMarker, hbody]
    rfl
  · exact hlast _ rfl
  · exact hlast _ rfl
  · exact hlast _ rfl

theorem scans_commentEnd (right : Option Whitespace) (h : Scans .text rest ls problem) :
    Scans (.commentEnd (marker right))
      (marker right ++ Delimiters.standard.commentEnd.toList ++ rest)
      ((.commentEnd, String.ofList (marker right)) :: ls) problem := by
  have hlength : 0 < Delimiters.standard.commentEnd.toList.length := by decide
  refine scans_emit _ rest (by simp; omega) fun s hd hmode hs => ⟨s, .text, hd, hs, ?_, h⟩
  rw [next, hmode]
  dsimp only
  rw [nextCommentEnd, hd]

theorem scans_commentBody {body : String} (right : Option Whitespace) (hne : body.toList ≠ [])
    (hlast : body.toList.getLast? = some ' ')
    (hinside : ¬ Delimiters.standard.commentEnd.toList <:+: body.toList)
    (h : Scans .text rest ls problem) (p : Position) :
    Scans (.comment p)
      (body.toList ++ (marker right ++ Delimiters.standard.commentEnd.toList ++ rest))
      ((.comment, body) :: (.commentEnd, String.ofList (marker right)) :: ls) problem := by
  have hlength : 0 < body.toList.length := List.length_pos_iff.mpr hne
  have hscans := @scans_emit _ problem (.comment p)
    (body.toList ++ (marker right ++ Delimiters.standard.commentEnd.toList ++ rest)) body.toList
    .comment body.toList (marker right ++ Delimiters.standard.commentEnd.toList ++ rest)
    (by simp only [List.length_append]; omega)
    (fun s hd hmode hs => ⟨s, _, hd, hs, ?_, scans_commentEnd right h⟩)
  · rwa [String.ofList_toList] at hscans
  have hbefore := beforeDelimiter?_commentEnd (not_commentEnd_of_marker hinside right) rest
  rw [List.append_assoc, ← List.append_assoc (marker right)] at hbefore
  rw [next, hmode]
  dsimp only
  rw [nextComment, hd, hs, hbefore]
  dsimp only
  rw [splitMarker_eq hlast]

theorem scans_comment {left right : Option Whitespace} {body : String}
    (hbody : (SourcePart.comment left body right).WellFormed)
    (h : Scans .text rest ls problem) :
    Scans .text ((SourcePart.comment left body right).source ++ rest)
      ((SourcePart.comment left body right).lexemes ++ ls) problem := by
  obtain ⟨hfirst, hlast, hinside⟩ := hbody
  obtain ⟨more, hchars⟩ := List.head?_eq_some_iff.mp hfirst
  have hread := fun p => scans_commentBody right (by simp [hchars]) hlast hinside h p
  rw [hchars, List.cons_append] at hread
  have hopener : ∀ text, opener? .standard (Delimiters.standard.commentStart.toList ++ text) =
      some (Delimiters.standard.commentStart, .commentStart) := fun _ => rfl
  have hscans := scans_opener left (by decide) hopener
    (fun p => by rw [if_pos rfl]; exact hread p)
  simpa [SourcePart.source, SourcePart.lexemes, hchars] using hscans

/-! ## Text -/

theorem opener?_eq_none_iff {d : Delimiters} {text : List Char} :
    opener? d text = none ↔ ∀ opener ∈ d.openers, ¬ opener.toList <+: text := by
  simp [opener?, beginsWith_iff]

/-- The text before the first opener is what no opener starts in, up to one or to the end. -/
theorem beforeOpener_eq {d : Delimiters} {value : List Char}
    (hvalue : ∀ n < value.length, ∀ opener ∈ d.openers, ¬ opener.toList <+: (value ++ rest).drop n)
    (hrest : rest = [] ∨ opener? d rest ≠ none) : beforeOpener d (value ++ rest) = value := by
  induction value with
  | nil =>
      rw [List.nil_append]
      cases rest with
      | nil => rfl
      | cons c rest =>
          rw [beforeOpener, if_pos]
          exact Option.isSome_iff_ne_none.mpr (hrest.resolve_left (List.cons_ne_nil _ _))
  | cons c value ih =>
      have hnone := opener?_eq_none_iff.mpr (hvalue 0 (Nat.zero_lt_succ _))
      rw [List.drop_zero, List.cons_append] at hnone
      rw [List.cons_append, beforeOpener, hnone, if_neg (by simp), ih]
      exact fun n hn => hvalue (n + 1) (Nat.succ_lt_succ hn)

theorem scans_text {value : String} (hne : value ≠ "") (hnul : '\x00' ∉ value.toList)
    (hvalue : ∀ n < value.toList.length, ∀ opener ∈ Delimiters.standard.openers,
      ¬ opener.toList <+: (value.toList ++ rest).drop n)
    (hrest : rest = [] ∨ opener? .standard rest ≠ none) (h : Scans .text rest ls problem) :
    Scans .text (value.toList ++ rest) ((.text, value) :: ls) problem := by
  have hlength : 0 < value.toList.length := by
    rw [List.length_pos_iff]
    simpa using hne
  have hscans := @scans_emit ls problem .text (value.toList ++ rest) value.toList .text value.toList
    rest (by simp; omega) (fun s hd hmode hs => ⟨s, .text, hd, hs, ?_, h⟩)
  · rwa [String.ofList_toList] at hscans
  have hnone := opener?_eq_none_iff.mpr (hvalue 0 hlength)
  have hbefore := beforeOpener_eq hvalue hrest
  rw [List.drop_zero] at hnone
  obtain ⟨c, more, hchars⟩ : ∃ c more, value.toList ++ rest = c :: more :=
    List.exists_cons_of_ne_nil (by simp [hne])
  rw [hchars] at hs hnone hbefore
  rw [next, hmode]
  dsimp only
  rw [nextText, hs]
  dsimp only
  rw [hd, hnone]
  dsimp only
  rw [hbefore, if_neg (by simpa using hnul)]

/-! ## Whole sources -/

/-- What does not start with text starts with its opening delimiter, of two characters. -/
theorem firstOpener_begins {parts : List SourcePart}
    (h : ∀ value more, parts ≠ .text value :: more) :
    ∃ rest, parts.flatMap SourcePart.source = SourcePart.firstOpener parts ++ rest ∧
      (rest = [] ∨ (SourcePart.firstOpener parts).length = 2) := by
  cases parts with
  | nil => exact ⟨[], rfl, .inl rfl⟩
  | cons part parts =>
      rw [List.flatMap_cons]
      cases part with
      | text value => exact absurd rfl (h value parts)
      | comment left body right =>
          rw [SourcePart.source, List.append_assoc]
          exact ⟨_, rfl, .inr rfl⟩
      | tag kind left items right =>
          rw [SourcePart.source, List.append_assoc]
          exact ⟨_, rfl, .inr (by cases kind <;> rfl)⟩

/-- Openers are as long as one another, so none reaches through the one that follows a text. -/
theorem not_opener_of_separate {value : List Char} {parts : List SourcePart}
    (hapart : ∀ value more, parts ≠ .text value :: more)
    (h : ∀ n < value.length, ∀ opener ∈ Delimiters.standard.openers,
      ¬ opener.toList <+: (value ++ SourcePart.firstOpener parts).drop n) :
    ∀ n < value.length, ∀ opener ∈ Delimiters.standard.openers,
      ¬ opener.toList <+: (value ++ parts.flatMap SourcePart.source).drop n := by
  intro n hn opener hopener hbegins
  obtain ⟨rest, hrest, hends⟩ := firstOpener_begins hapart
  have hlength : ∀ opener ∈ Delimiters.standard.openers, opener.toList.length = 2 := by decide
  rw [hrest, ← List.append_assoc, List.drop_append_of_le_length (by simp; omega)] at hbegins
  refine h n hn opener hopener ?_
  rcases hends with rfl | htwo
  · rwa [List.append_nil] at hbegins
  · refine List.prefix_of_prefix_length_le hbegins (List.prefix_append _ _) ?_
    rw [hlength opener hopener, List.length_drop, List.length_append]
    omega

theorem opener?_firstOpener {parts : List SourcePart}
    (h : ∀ value more, parts ≠ .text value :: more) :
    parts.flatMap SourcePart.source = [] ∨
      opener? .standard (parts.flatMap SourcePart.source) ≠ none := by
  cases parts with
  | nil => exact .inl rfl
  | cons part parts =>
      refine .inr ?_
      cases part with
      | text value => exact absurd rfl (h value parts)
      | comment left body right => exact Option.some_ne_none _
      | tag kind left items right => cases kind <;> exact Option.some_ne_none _

theorem scans_parts {parts : List SourcePart} (hwell : ∀ g ∈ parts, g.WellFormed)
    (hseparate : SourcePart.Separate parts) :
    Scans .text (parts.flatMap SourcePart.source)
      (parts.flatMap SourcePart.lexemes ++ [(.eof, "")]) none := by
  induction parts with
  | nil => exact scans_end
  | cons g parts ih =>
      obtain ⟨hg, hrest⟩ := List.forall_mem_cons.mp hwell
      rw [List.flatMap_cons, List.flatMap_cons, List.append_assoc]
      cases g with
      | text value =>
          obtain ⟨hapart, hvalue, hseparate⟩ := hseparate
          exact scans_text hg.1 hg.2 (not_opener_of_separate hapart hvalue)
            (opener?_firstOpener hapart) (ih hrest hseparate)
      | comment left body right => exact scans_comment hg (ih hrest hseparate)
      | tag kind left items right => exact scans_tag hg (ih hrest hseparate)

/-- What is scanned from a whole text are its tokens. -/
theorem Scans.tokenize {text : List Char} (h : Scans .text text ls problem) (unit : String) :
    ∃ ts fault, ts.map Token.lexeme = ls ∧ fault.map (·.problem) = problem ∧
      TemplateCompiler.tokenize (String.ofList text) unit .standard = (ts, fault) := by
  obtain ⟨ts, fault, hts, hfault, hlength, hrun⟩ :=
    h (.ofSource (String.ofList text) unit .standard) rfl rfl String.toList_ofList
  refine ⟨ts, fault, hts, hfault, ?_⟩
  rw [TemplateCompiler.tokenize, hrun]
  rw [String.toList_ofList, fuelFor]
  omega

end Scanner

/-- The tokens of a written source have the lexemes that it was written by, up to its end. -/
theorem tokenize_parts {parts : List SourcePart} (hwell : ∀ g ∈ parts, g.WellFormed)
    (hseparate : SourcePart.Separate parts) (unit : String) :
    ∃ ts, tokenize (String.ofList (parts.flatMap SourcePart.source)) unit .standard = (ts, none) ∧
      ts.map Token.lexeme = parts.flatMap SourcePart.lexemes ++ [(.eof, "")] := by
  obtain ⟨ts, fault, hlexemes, hnone, htokens⟩ :=
    (Scanner.scans_parts hwell hseparate).tokenize unit
  rw [Option.map_eq_none_iff.mp hnone] at htokens
  exact ⟨ts, htokens, hlexemes⟩

/-- Signs that would end a tag stand in a string, a number or alone, and markers before a delimiter
stand beside operators that are spelled like them. -/
theorem tokenize_parts_of_signs :
    let items : List (Lexeme × List Char) :=
      [((.operator, "~"), "~".toList), ((.string, "\"%\x7d'"), "'\"%\x7d\\''".toList),
        ((.operator, "%"), "%".toList), ((.number, "1.5"), "1.5".toList),
        ((.dot, "."), ['.']), ((.keyword, "in"), "in".toList),
        ((.identifier, "inn"), "inn".toList), ((.operator, "-"), "-".toList)]
    let parts : List SourcePart :=
      [.text "\x7d\x7d \x7b ", .comment (some .suppress) " \x7b\x7b # " none,
        .tag .output (some .minimize) items (some .suppress)]
    String.ofList (parts.flatMap SourcePart.source) =
        "\x7d\x7d \x7b \x7b#- \x7b\x7b # #\x7d" ++
          "\x7b\x7b~ ~ '\"%\x7d\\'' % 1.5 . in inn - -\x7d\x7d" ∧
      (∀ g ∈ parts, g.WellFormed) ∧ SourcePart.Separate parts ∧
      ∃ ts, tokenize (String.ofList (parts.flatMap SourcePart.source)) "page" .standard =
          (ts, none) ∧
        ts.map Token.lexeme = parts.flatMap SourcePart.lexemes ++ [(.eof, "")] := by
  intro items parts
  have hnumber : DigitText "1.5".toList :=
    @DigitText.pointed ['1'] ['5'] (by decide) (by decide) (List.all_eq_true.mp (by decide +kernel))
  have hname : IsName "inn" :=
    ⟨⟨'i', ['n', 'n'], rfl, by decide +kernel, List.all_eq_true.mp (by decide +kernel)⟩, by decide⟩
  have hitems : ∀ item ∈ items, item.1.Written item.2 := by
    simp only [items, List.forall_mem_cons, List.not_mem_nil, false_implies, implies_true, and_true]
    exact ⟨.operator (by decide), .string (.inr rfl) (by decide), .operator (by decide),
      .number hnumber, .punctuation (c := '.') rfl, .keyword (by decide), .name hname,
      .operator (by decide)⟩
  have hwell : ∀ g ∈ parts, g.WellFormed := by
    simp only [parts, List.forall_mem_cons, List.not_mem_nil, false_implies, implies_true, and_true]
    exact ⟨⟨by decide, by decide⟩, ⟨rfl, rfl, by decide⟩, hitems⟩
  have hseparate : SourcePart.Separate parts := ⟨nofun, by decide +kernel, trivial⟩
  exact ⟨by decide +kernel, hwell, hseparate, tokenize_parts hwell hseparate "page"⟩

end TemplateCompiler
