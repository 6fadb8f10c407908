import Mathlib.Data.List.Find
import TemplateCompiler.Proofs.WrittenSources

/-!
# How far a scanner looks ahead

In the standard syntax a step looks at most two characters past the token that it reads. Behind a
token that closes a tag or a comment it does not look at all. So the tokens up to such a delimiter
stay what they are when another text is put in the place of what follows it.

There is one lemma for each kind of token, and `next_before` puts them together: a step that reads a
token reads it in front of another text too, if what it looks at stays.
-/

namespace TemplateCompiler

/-- A delimiter that closes a tag or a comment leads out of it. -/
theorem ScanMode.Turns.of_closer {mode mode' : ScanMode} {kind : TokenKind}
    (h : mode.Turns kind mode') (hkind : kind.isCloser) :
    (∃ marker, mode = .commentEnd marker) ∨ mode = .tag ∧ mode' = .text := by
  cases h with
  | closeComment => exact .inl ⟨_, rfl⟩
  | closeTag => exact .inr ⟨rfl, rfl⟩
  | openTag hopen => rcases hopen with rfl | rfl <;> cases hkind
  | inner hinner => cases kind <;> first | exact absurd hkind (by decide) | cases hinner
  | _ => cases hkind

theorem ScanMode.Turns.ne_comment {kind : TokenKind} {mode : ScanMode}
    (h : ScanMode.tag.Turns kind mode) : kind ≠ .comment := by
  rintro rfl
  cases h with
  | inner hinner => cases hinner
  | closeTag hclose => rcases hclose with hkind | hkind <;> cases hkind

namespace Scanner

/-- The same scanner in front of another text. -/
def before (s : Scanner) (text : List Char) : Scanner :=
  { s with rest := text }

theorem rest_before (s : Scanner) (text : List Char) : (s.before text).rest = text := rfl

/-! ## Beginnings of a text -/

section

variable {text text' : List Char}

/-- What a text begins with is settled by as many characters as it has. -/
theorem beginsWith_congr {n : Nat} {delimiter : String} (hlength : delimiter.toList.length ≤ n)
    (h : text.take n = text'.take n) : beginsWith text delimiter = beginsWith text' delimiter := by
  have htake : ∀ text : List Char, delimiter.toList <+: text.take n ↔ delimiter.toList <+: text :=
    fun text => by simp [List.prefix_take_iff, hlength]
  rw [Bool.eq_iff_iff, beginsWith_iff, beginsWith_iff, ← htake text, h, htake]

theorem opener?_congr (h : text.take 2 = text'.take 2) :
    opener? .standard text = opener? .standard text' := by
  have hlength : ∀ opener ∈ Delimiters.standard.openers, opener.toList.length ≤ 2 := by decide
  unfold opener?
  rw [List.find?_congr fun opener hopener => beginsWith_congr (hlength opener hopener) h]

theorem closer?_congr (h : text.take 2 = text'.take 2) :
    closer? .standard text = closer? .standard text' := by
  unfold closer?
  have hlength : ∀ closer ∈ [Delimiters.standard.blockEnd, Delimiters.standard.exprEnd],
      closer.toList.length ≤ 2 := by decide
  rw [beginsWith_congr (hlength _ (by simp)) h, beginsWith_congr (hlength _ (by simp)) h]

theorem markedCloser?_congr (h : text.take 3 = text'.take 3) :
    markedCloser? .standard text = markedCloser? .standard text' := by
  have htwo : ∀ text : List Char, text.take 2 = (text.take 3).take 2 := fun text => by
    rw [List.take_take]
    rfl
  unfold markedCloser?
  have hcloser : closer? .standard text = closer? .standard text' :=
    closer?_congr (by rw [htwo, h, ← htwo])
  rw [hcloser]
  cases text with
  | nil =>
      cases text' with
      | nil => rfl
      | cons c rest => cases h
  | cons c rest =>
      cases text' with
      | nil => cases h
      | cons c' rest' =>
          rw [List.take_succ_cons, List.take_succ_cons] at h
          obtain ⟨rfl, hrest⟩ := List.cons.inj h
          dsimp only
          rw [closer?_congr hrest]

theorem operator?_congr (h : text.take 2 = text'.take 2) :
    Token.operators.find? (beginsWith text) = Token.operators.find? (beginsWith text') := by
  have hlength : ∀ sign ∈ Token.operators, sign.toList.length ≤ 2 := by decide
  exact List.find?_congr fun sign hsign => beginsWith_congr (hlength sign hsign) h

theorem leadingMarker_congr (h : text.take 1 = text'.take 1) :
    leadingMarker text = leadingMarker text' :=
  congrArg (List.filter Whitespace.isMarker) h

end

/-! ## Pieces of text in front of another text -/

section

variable {read rest : List Char}

theorem take_before {n : Nat} (h : n ≤ (read ++ rest).length) (after after' : List Char) :
    (read ++ (rest ++ after)).take n = (read ++ (rest ++ after')).take n := by
  rw [← List.append_assoc, ← List.append_assoc, List.take_append_of_le_length h,
    List.take_append_of_le_length h]

/-- A run of characters of one class in front of other characters. -/
theorem takeWhile_before {p : Char → Bool} {after : List Char} (hrest : rest ≠ [])
    (h : (read ++ (rest ++ after)).takeWhile p = read) (after' : List Char) :
    (read ++ (rest ++ after')).takeWhile p = read ∧
      (read ++ (rest ++ after')).dropWhile p = rest ++ after' := by
  obtain ⟨c, more, rfl⟩ := List.exists_cons_of_ne_nil hrest
  have hread : ∀ d ∈ read, p d = true := by
    rw [← h]
    exact List.all_eq_true.mp List.all_takeWhile
  have hstop : p c = false := by
    rw [List.takeWhile_append_of_pos hread, List.append_right_eq_self] at h
    by_contra hc
    rw [List.cons_append, List.takeWhile_cons_of_pos (by simpa using hc)] at h
    cases h
  refine Text.split_run p read _ hread ?_
  rintro _ ⟨⟩
  exact hstop

theorem exists_two_of_length (h : 2 ≤ rest.length) : ∃ a b more, rest = a :: b :: more := by
  cases rest with
  | nil => simp at h
  | cons a rest =>
      cases rest with
      | nil => simp at h
      | cons b more => exact ⟨a, b, more, rfl⟩

theorem numberText_of_point {whole after : List Char} {d : Char}
    (hwhole : ∀ c ∈ whole, continuesNumber c = true) (hd : Text.isDigit d = true) :
    numberText (whole ++ '.' :: d :: after) =
      whole ++ '.' :: (d :: after).takeWhile continuesNumber := by
  have hpoint : continuesNumber '.' = false := by decide +kernel
  obtain ⟨htake, hdrop⟩ := Text.split_run continuesNumber whole ('.' :: d :: after) hwhole
    (by rintro _ ⟨⟩; exact hpoint)
  unfold numberText
  rw [htake, hdrop]
  exact if_pos hd

/-- A number is a run of digits, with a fraction if a point and a digit follow. -/
theorem numberText_cases (text : List Char) :
    (∃ whole d more, text = whole ++ '.' :: d :: more ∧
      (∀ c ∈ whole, continuesNumber c = true) ∧ Text.isDigit d = true) ∨
    numberText text = text.takeWhile continuesNumber ∧
      ∀ d more, text.dropWhile continuesNumber = '.' :: d :: more → Text.isDigit d = false := by
  unfold numberText
  dsimp only
  split
  · next d more hdrop =>
      by_cases hd : Text.isDigit d
      · refine .inl ⟨text.takeWhile continuesNumber, d, more, ?_,
          List.all_eq_true.mp List.all_takeWhile, hd⟩
        rw [← hdrop, List.takeWhile_append_dropWhile]
      · refine .inr ⟨if_neg hd, fun e rest heq => ?_⟩
        rw [hdrop] at heq
        obtain ⟨-, hrest⟩ := List.cons.inj heq
        obtain ⟨rfl, -⟩ := List.cons.inj hrest
        simpa using hd
  · next hnone => exact .inr ⟨rfl, fun d more heq => (hnone d more heq).elim⟩

/-- Whether a number goes on behind its first digits is settled by two characters. -/
theorem numberText_before {after : List Char} (hrest : 2 ≤ rest.length)
    (h : numberText (read ++ (rest ++ after)) = read) (after' : List Char) :
    numberText (read ++ (rest ++ after')) = read := by
  obtain ⟨a, b, more, rfl⟩ := exists_two_of_length hrest
  have hne : a :: b :: more ≠ [] := List.cons_ne_nil _ _
  rcases numberText_cases (read ++ (a :: b :: more ++ after)) with
    ⟨whole, d, behind, heq, hwhole, hd⟩ | ⟨hnumber, hpoint⟩
  · -- the digits behind the point end where they ended before
    rw [heq, numberText_of_point hwhole hd] at h
    obtain ⟨fraction, htake⟩ : ∃ fraction,
        (d :: behind).takeWhile continuesNumber = d :: fraction :=
      ⟨_, List.takeWhile_cons_of_pos (by simp [continuesNumber, hd])⟩
    rw [htake] at h
    subst h
    obtain rfl : fraction ++ (a :: b :: more ++ after) = behind := by simpa using heq
    obtain ⟨htake', -⟩ := @takeWhile_before (d :: fraction) _ _ _ hne htake after'
    rw [List.append_assoc, List.cons_append, List.cons_append, numberText_of_point hwhole hd,
      ← List.cons_append, htake']
  · rw [hnumber] at h
    obtain ⟨-, hdrop⟩ := takeWhile_before hne h after
    obtain ⟨htake', hdrop'⟩ := takeWhile_before hne h after'
    unfold numberText
    rw [htake', hdrop']
    dsimp only
    split
    · next d behind heq =>
        simp only [List.cons_append, List.cons.injEq] at heq
        obtain ⟨rfl, rfl, -⟩ := heq
        rw [hpoint b _ hdrop]
        rfl
    · rfl

/-- The closing quote ends what is read of a string. -/
theorem stringBody_before {opened place : Position} {quote : Char}
    {decoded text value after : List Char}
    (h : stringBody opened quote place decoded text = .ok (value, after)) :
    ∃ read, text = read ++ after ∧ ∀ after',
      stringBody opened quote place decoded (read ++ after') = .ok (value, after') := by
  fun_induction stringBody opened quote place decoded text with
  | case2 place decoded rest =>
      obtain ⟨rfl, rfl⟩ := Prod.mk.inj (Except.ok.inj h)
      exact ⟨[quote], rfl, fun after' => stringBody_quote⟩
  | case4 place decoded e rest d hd hquote ih =>
      obtain ⟨read, rfl, hread⟩ := ih h
      exact ⟨'\\' :: e :: read, rfl, fun after' =>
        (stringBody_escaped (Ne.symm hquote) hd).trans (hread after')⟩
  | case7 place decoded c rest hquote hslash hnul ih =>
      obtain ⟨read, rfl, hread⟩ := ih h
      exact ⟨c :: read, rfl, fun after' =>
        (stringBody_plain hquote hslash hnul).trans (hread after')⟩
  | _ => cases h

/-- The first place of a delimiter is settled by the text up to the end of the delimiter. -/
theorem beforeDelimiter?_before {delimiter : String} {found after : List Char}
    (h : beforeDelimiter? delimiter (rest ++ after) = some found)
    (hrest : found.length + delimiter.toList.length ≤ rest.length) (after' : List Char) :
    beforeDelimiter? delimiter (rest ++ after') = some found := by
  have hbegins : ∀ {rest : List Char}, delimiter.toList.length ≤ rest.length →
      beginsWith (rest ++ after') delimiter = beginsWith (rest ++ after) delimiter := by
    intro rest hlength
    refine beginsWith_congr (Nat.le_refl _) ?_
    rw [List.take_append_of_le_length hlength, List.take_append_of_le_length hlength]
  induction rest generalizing found with
  | nil =>
      obtain ⟨hfound, hdelimiter⟩ : found.length = 0 ∧ delimiter.toList.length = 0 := by
        simpa using hrest
      obtain rfl := List.eq_nil_of_length_eq_zero hfound
      have hempty : beginsWith after' delimiter = true :=
        beginsWith_iff.mpr (by simp [List.eq_nil_of_length_eq_zero hdelimiter])
      rw [List.nil_append]
      cases after' with
      | nil => rw [beforeDelimiter?, if_pos hempty]
      | cons c after' => rw [beforeDelimiter?, if_pos hempty]
  | cons c rest ih =>
      have hlength : delimiter.toList.length ≤ (c :: rest).length := by omega
      rw [List.cons_append, beforeDelimiter?, ← List.cons_append] at h ⊢
      rw [hbegins hlength]
      split at h
      · next hstart => rw [if_pos hstart, h]
      · next hstart =>
          obtain ⟨found, hfound, rfl⟩ := Option.map_eq_some_iff.mp h
          simp only [List.length_cons] at hrest
          rw [if_neg hstart, ih hfound (by omega)]
          rfl

/-- Where the text ends that stands before an opener is settled by the opener. -/
theorem beforeOpener_before {after : List Char} (hrest : 2 ≤ rest.length)
    (h : beforeOpener .standard (read ++ (rest ++ after)) = read) (after' : List Char) :
    beforeOpener .standard (read ++ (rest ++ after')) = read := by
  induction read with
  | nil =>
      obtain ⟨a, b, more, rfl⟩ := exists_two_of_length hrest
      rw [List.nil_append, List.cons_append, beforeOpener] at h ⊢
      have hsame : opener? .standard (a :: (b :: more ++ after')) =
          opener? .standard (a :: (b :: more ++ after)) := opener?_congr rfl
      rw [hsame]
      split at h
      · next hopener => rw [if_pos hopener]
      · cases h
  | cons c read ih =>
      have hsame : opener? .standard (c :: (read ++ (rest ++ after'))) =
          opener? .standard (c :: (read ++ (rest ++ after))) :=
        opener?_congr (@take_before (c :: read) rest 2 (by simp; omega) after' after)
      rw [List.cons_append, beforeOpener] at h ⊢
      rw [hsame]
      split at h
      · cases h
      · next hopener => rw [if_neg hopener, ih (List.cons.inj h).2]

end

/-! ## One step -/

section

variable {s s' : Scanner} {t : Token} {kind : TokenKind} {value raw : List Char} {mode : ScanMode}

theorem raw_of_emit (h : s.emit kind value raw mode = .token t s') : t.raw.toList = raw := by
  cases h
  exact String.toList_ofList

theorem emit_before (h : s.emit kind value raw mode = .token t s') (text : List Char) :
    (s.before (raw ++ text)).emit kind value raw mode = .token t (s'.before text) := by
  cases h
  simp [emit, before]

theorem nextText_of_opener {opener : String} (hs : s.rest ≠ [])
    (h : opener? s.delimiters s.rest = some (opener, kind)) :
    s.nextText = s.nextOpener opener kind := by
  obtain ⟨c, rest, hrest⟩ := List.exists_cons_of_ne_nil hs
  rw [hrest] at h
  rw [nextText, hrest]
  dsimp only
  rw [h]

theorem nextText_of_text {text : List Char} (hs : s.rest ≠ [])
    (hopener : opener? s.delimiters s.rest = none)
    (htext : beforeOpener s.delimiters s.rest = text) (hnul : '\x00' ∉ text) :
    s.nextText = s.emit .text text text .text := by
  obtain ⟨c, rest, hrest⟩ := List.exists_cons_of_ne_nil hs
  rw [hrest] at hopener htext
  rw [nextText, hrest]
  dsimp only
  rw [hopener]
  dsimp only
  rw [htext, if_neg (by simpa using hnul)]

/-- What is read between tags is an opener, or a text without a NUL. -/
theorem nextText_inv (hs : s.rest ≠ []) (h : s.nextText = .token t s') :
    (∃ opener kind, opener? s.delimiters s.rest = some (opener, kind) ∧
      s.nextOpener opener kind = .token t s') ∨
    ∃ text, opener? s.delimiters s.rest = none ∧ beforeOpener s.delimiters s.rest = text ∧
      '\x00' ∉ text ∧ s.emit .text text text .text = .token t s' := by
  unfold nextText at h
  split at h
  · next hnil => exact absurd hnil hs
  · split at h
    · next opener kind hopener => exact .inl ⟨opener, kind, hopener, h⟩
    · next hopener =>
        dsimp only at h
        split at h
        · cases h
        · next hnul => exact .inr ⟨_, hopener, rfl, by simpa using hnul, h⟩

variable {rest after : List Char}

theorem nextOpener_eq {opener : String} {marker : List Char}
    (h : leadingMarker (s.rest.drop opener.toList.length) = marker) :
    s.nextOpener opener kind = s.emit kind marker (opener.toList ++ marker)
      (if kind = .commentStart then .comment s.position else .tag) := by
  subst h
  rfl

/-- The marker behind an opener is one character. -/
theorem nextOpener_before {opener : String} (h : s.nextOpener opener kind = .token t s')
    (hs : s.rest = t.raw.toList ++ (rest ++ after)) (hrest : rest ≠ []) (after' : List Char) :
    (s.before (t.raw.toList ++ (rest ++ after'))).nextOpener opener kind =
      .token t (s'.before (rest ++ after')) := by
  obtain ⟨marker, hmarker⟩ : ∃ marker, leadingMarker (s.rest.drop opener.toList.length) = marker :=
    ⟨_, rfl⟩
  rw [nextOpener_eq hmarker] at h
  have hraw := raw_of_emit h
  have hlength := List.length_pos_iff.mpr hrest
  have hmarker' : leadingMarker ((s.before (opener.toList ++ marker ++ (rest ++ after'))).rest.drop
      opener.toList.length) = marker := by
    show leadingMarker ((opener.toList ++ marker ++ (rest ++ after')).drop _) = marker
    rw [hs, hraw] at hmarker
    simp only [List.append_assoc, List.drop_left] at hmarker ⊢
    refine (leadingMarker_congr (take_before ?_ after' after)).trans hmarker
    rw [List.length_append]
    omega
  rw [hraw, nextOpener_eq hmarker']
  exact emit_before h _

theorem nextText_before (hd : s.delimiters = .standard) (h : s.nextText = .token t s')
    (hs : s.rest = t.raw.toList ++ (rest ++ after)) (hrest : 2 ≤ rest.length)
    (after' : List Char) :
    (s.before (t.raw.toList ++ (rest ++ after'))).nextText =
      .token t (s'.before (rest ++ after')) := by
  have hfirst : rest ≠ [] := by
    rintro rfl
    cases hrest
  have hne : ∀ text : List Char, t.raw.toList ++ (rest ++ text) ≠ [] := by simp [hfirst]
  have hopeners : opener? .standard (t.raw.toList ++ (rest ++ after')) =
      opener? s.delimiters s.rest := by
    rw [hs, hd]
    exact opener?_congr (take_before (by simp; omega) after' after)
  rcases nextText_inv (hs ▸ hne after) h with
    ⟨opener, kind, hopener, h⟩ | ⟨text, hopener, htext, hnul, h⟩
  · rw [hopener] at hopeners
    rw [nextText_of_opener (hne after') (hd ▸ hopeners)]
    exact nextOpener_before h hs hfirst after'
  · have hraw := raw_of_emit h
    rw [hopener] at hopeners
    rw [hs, hraw, hd] at htext
    rw [hraw] at hopeners ⊢
    rw [nextText_of_text (hraw ▸ hne after') (hd ▸ hopeners)
      (hd ▸ beforeOpener_before hrest htext after') hnul]
    exact emit_before h _

/-- A closing delimiter is read the same in front of any text. -/
theorem markedCloser?_before {text marker : List Char} {closer : String}
    (h : markedCloser? .standard text = some (marker, closer, kind)) (after' : List Char) :
    markedCloser? .standard (marker ++ closer.toList ++ after') = some (marker, closer, kind) := by
  have hcases : ∀ {text : List Char} {found : String × TokenKind},
      closer? .standard text = some found → found = ("%\x7d", .blockEnd) ∨
        found = ("\x7d\x7d", .exprEnd) := by
    intro text found hfound
    unfold closer? at hfound
    split at hfound
    · exact .inl (Option.some.inj hfound).symm
    · split at hfound
      · exact .inr (Option.some.inj hfound).symm
      · cases hfound
  rcases Option.or_eq_some_iff.mp h with hmarked | ⟨-, hplain⟩
  · split at hmarked
    · next c rest =>
        split at hmarked
        · next hc =>
            obtain ⟨found, hfound, hpair⟩ := Option.map_eq_some_iff.mp hmarked
            have hmarker : ∀ {text : List Char}, closer? .standard text = some found →
                markedCloser? .standard (c :: text) = some ([c], found) := by
              intro text htext
              unfold markedCloser?
              dsimp only
              rw [if_pos hc, htext]
              rfl
            rcases hcases hfound with rfl | rfl <;> (cases hpair; exact hmarker rfl)
        · cases hmarked
    · cases hmarked
  · obtain ⟨found, hfound, hpair⟩ := Option.map_eq_some_iff.mp hplain
    rcases hcases hfound with rfl | rfl <;> (cases hpair; rfl)

theorem nextWord_eq {word : List Char}
    (h : s.rest.takeWhile Token.continuesIdentifier = word) :
    s.nextWord = s.emit (if Token.keywords.contains (String.ofList word) then .keyword
      else .identifier) word word .tag := by
  subst h
  rfl

theorem nextWord_before (h : s.nextWord = .token t s')
    (hs : s.rest = t.raw.toList ++ (rest ++ after)) (hrest : rest ≠ []) (after' : List Char) :
    (s.before (t.raw.toList ++ (rest ++ after'))).nextWord =
      .token t (s'.before (rest ++ after')) := by
  have hraw := raw_of_emit h
  rw [nextWord_eq hraw.symm] at h
  rw [hs] at hraw
  rw [nextWord_eq (takeWhile_before hrest hraw.symm after').1]
  exact emit_before h _

theorem nextNumber_eq {text : List Char} (h : numberText s.rest = text) :
    s.nextNumber = s.emit .number (text.filter (· ≠ '_')) text .tag := by
  subst h
  rfl

theorem nextNumber_before (h : s.nextNumber = .token t s')
    (hs : s.rest = t.raw.toList ++ (rest ++ after)) (hrest : 2 ≤ rest.length)
    (after' : List Char) :
    (s.before (t.raw.toList ++ (rest ++ after'))).nextNumber =
      .token t (s'.before (rest ++ after')) := by
  have hraw := raw_of_emit h
  rw [nextNumber_eq hraw.symm] at h
  rw [hs] at hraw
  rw [nextNumber_eq (numberText_before hrest hraw.symm after')]
  exact emit_before h _

theorem nextString_eq {quote : Char} {read value after : List Char}
    (hs : s.rest = quote :: (read ++ after))
    (h : stringBody s.position quote (s.position.next quote) [] (read ++ after) =
      .ok (value, after)) :
    s.nextString quote (read ++ after) = s.emit .string value (quote :: read) .tag := by
  have hlength : s.rest.length - after.length = (quote :: read).length := by
    rw [hs, ← List.cons_append, List.length_append, Nat.add_sub_cancel]
  unfold nextString
  rw [h]
  dsimp only
  rw [hlength, hs, ← List.cons_append, List.take_left]

/-- Behind the closing quote of a string nothing is looked at. -/
theorem nextString_before {quote : Char} {body more : List Char}
    (h : s.nextString quote body = .token t s') (hs : s.rest = quote :: body)
    (hraw : t.raw.toList = quote :: more) (text : List Char) :
    (s.before (quote :: (more ++ text))).nextString quote (more ++ text) =
      .token t (s'.before text) := by
  have hread := h
  unfold nextString at hread
  split at hread
  · cases hread
  · next value behind hok =>
      obtain ⟨read, rfl, hread'⟩ := stringBody_before hok
      rw [nextString_eq hs hok] at h
      obtain rfl : more = read := (List.cons.inj (hraw.symm.trans (raw_of_emit h))).2
      have hok' := hread' text
      rw [@nextString_eq (s.before (quote :: (more ++ text))) quote more value text rfl hok']
      exact emit_before h text

theorem nextSign_before {c : Char} (h : s.nextSign c = .token t s')
    (hs : s.rest = t.raw.toList ++ (rest ++ after)) (hraw : t.raw.toList ≠ [])
    (hrest : rest ≠ []) (after' : List Char) :
    (s.before (t.raw.toList ++ (rest ++ after'))).nextSign c =
      .token t (s'.before (rest ++ after')) := by
  have hsame : Token.operators.find? (beginsWith (t.raw.toList ++ (rest ++ after'))) =
      Token.operators.find? (beginsWith s.rest) := by
    have hlength := List.length_pos_iff.mpr hraw
    have hlength' := List.length_pos_iff.mpr hrest
    rw [hs]
    refine operator?_congr (take_before ?_ after' after)
    rw [List.length_append]
    omega
  unfold nextSign at h ⊢
  cases hsign : Token.operators.find? (beginsWith s.rest) with
  | some sign =>
      rw [hsign] at h hsame
      have hraw := raw_of_emit h
      rw [hraw] at hsame ⊢
      rw [rest_before, hsame]
      exact emit_before h _
  | none =>
      rw [hsign] at h hsame
      dsimp only at h
      split at h
      · next kind hkind =>
          have hraw := raw_of_emit h
          rw [hraw] at hsame ⊢
          rw [rest_before, hsame]
          exact emit_before h _
      · cases h

/-- What stands where no closing delimiter does. -/
theorem nextInTag_of_none {c : Char} {text : List Char} (hs : s.rest = c :: text)
    (h : markedCloser? s.delimiters s.rest = none) :
    s.nextInTag = if c = '\x00' then s.fail .nulCharacter s.position s.position
      else if Token.startsIdentifier c then s.nextWord
      else if Text.isDigit c then s.nextNumber
      else if c = '"' || c = '\'' then s.nextString c text else s.nextSign c := by
  rw [hs] at h
  rw [nextInTag, hs]
  dsimp only
  rw [h]

theorem nextInTag_of_closer {marker : List Char} {closer : String} (hs : s.rest ≠ [])
    (h : markedCloser? s.delimiters s.rest = some (marker, closer, kind)) :
    s.nextInTag = s.emit kind marker (marker ++ closer.toList) .text := by
  obtain ⟨c, text, hrest⟩ := List.exists_cons_of_ne_nil hs
  rw [hrest] at h
  rw [nextInTag, hrest]
  dsimp only
  rw [h]

theorem nextInTag_inner {c : Char} {text : List Char} (hs : s.rest = c :: text)
    (hcloser : markedCloser? s.delimiters s.rest = none) (h : s.nextInTag = .token t s') :
    s'.mode = .tag := by
  rw [nextInTag_of_none hs hcloser] at h
  split at h
  · cases h
  · split at h
    · cases h
      rfl
    · split at h
      · cases h
        rfl
      · split at h
        · unfold nextString at h
          split at h
          · cases h
          · cases h
            rfl
        · unfold nextSign at h
          split at h
          · cases h
            rfl
          · split at h
            · cases h
              rfl
            · cases h

/-- Outside of a closing delimiter, two characters behind the token are looked at. -/
theorem nextInTag_before (hd : s.delimiters = .standard) (h : s.nextInTag = .token t s')
    (hs : s.rest = t.raw.toList ++ (rest ++ after)) (hraw : t.raw.toList ≠ [])
    (hrest : s'.mode = .text ∨ 2 ≤ rest.length) (after' : List Char) :
    (s.before (t.raw.toList ++ (rest ++ after'))).nextInTag =
      .token t (s'.before (rest ++ after')) := by
  obtain ⟨c, more, hmore⟩ := List.exists_cons_of_ne_nil hraw
  have hne : ∀ text : List Char, t.raw.toList ++ text ≠ [] := by simp [hraw]
  cases hcloser : markedCloser? s.delimiters s.rest with
  | some found =>
      obtain ⟨marker, closer, kind⟩ := found
      rw [nextInTag_of_closer (hs ▸ hne _) hcloser] at h
      rw [hd] at hcloser
      rw [raw_of_emit h] at hne ⊢
      rw [nextInTag_of_closer (hne _) (hd ▸ markedCloser?_before hcloser (rest ++ after'))]
      exact emit_before h _
  | none =>
      have hs' := hs
      rw [hmore, List.cons_append] at hs'
      have hinner := nextInTag_inner hs' hcloser h
      rw [nextInTag_of_none hs' hcloser] at h
      have hlong : 2 ≤ rest.length :=
        hrest.resolve_left fun htext => ScanMode.noConfusion (hinner.symm.trans htext)
      have hfirst : rest ≠ [] := by
        rintro rfl
        cases hlong
      have hcloser' : markedCloser? s.delimiters (t.raw.toList ++ (rest ++ after')) = none := by
        rw [← hcloser, hs, hd]
        refine markedCloser?_congr (take_before ?_ after' after)
        rw [hmore, List.length_append, List.length_cons]
        omega
      rw [@nextInTag_of_none (s.before (t.raw.toList ++ (rest ++ after'))) c
        (more ++ (rest ++ after')) (by rw [hmore]; rfl) hcloser']
      split at h
      · cases h
      · next hnul =>
          rw [if_neg hnul]
          split at h
          · next hstarts =>
              rw [if_pos hstarts]
              exact nextWord_before h hs hfirst after'
          · next hstarts =>
              rw [if_neg hstarts]
              split at h
              · next hdigit =>
                  rw [if_pos hdigit]
                  exact nextNumber_before h hs hlong after'
              · next hdigit =>
                  rw [if_neg hdigit]
                  split at h
                  · next hquote =>
                      rw [if_pos hquote, hmore]
                      exact nextString_before h hs' hmore _
                  · next hquote =>
                      rw [if_neg hquote]
                      exact nextSign_before h hs hraw hfirst after'

theorem nextComment_before {opened : Position} {marker : List Char}
    (hd : s.delimiters = .standard) (h : s.nextComment opened = .token t s')
    (hs : s.rest = t.raw.toList ++ (rest ++ after)) (hmode : s'.mode = .commentEnd marker)
    (hrest : marker.length + 2 ≤ rest.length) (after' : List Char) :
    (s.before (t.raw.toList ++ (rest ++ after'))).nextComment opened =
      .token t (s'.before (rest ++ after')) := by
  unfold nextComment at h ⊢
  split at h
  · cases h
  · next all hall =>
      have hsplit := splitMarker_append all
      generalize hparts : splitMarker all = parts at h hsplit
      obtain ⟨body, marker'⟩ := parts
      have hread : t.raw.toList = body := raw_of_emit h
      obtain rfl : marker' = marker := by
        cases h
        exact ScanMode.commentEnd.inj hmode
      have hall' : beforeDelimiter? Delimiters.standard.commentEnd (body ++ rest ++ after') =
          some all := by
        rw [hd, hs, hread, ← List.append_assoc] at hall
        refine beforeDelimiter?_before hall ?_ after'
        rw [← hsplit]
        simp only [List.length_append]
        show body.length + marker'.length + 2 ≤ _
        omega
      have hdelimiter : (s.before (body ++ (rest ++ after'))).delimiters = .standard := hd
      rw [hread, hdelimiter, rest_before, ← List.append_assoc, hall']
      dsimp only
      rw [hparts, List.append_assoc]
      exact emit_before h _

/-- What is read in a tag starts behind the blanks. -/
theorem skipBlanks_ahead (hd : s.delimiters.Solid) (hmode : s.mode = .tag)
    (h : s.skipBlanks.nextInTag = .token t s') : s.skipBlanks.rest = t.raw.toList ++ s'.rest := by
  have hsteps := nextInTag_steps (s := s.skipBlanks) hd hmode
  rw [h] at hsteps
  obtain ⟨gap, he⟩ := hsteps
  have hahead := he.ahead
  cases gap with
  | nil => exact hahead
  | cons c gap =>
      -- the first character behind the blanks is none
      have hfirst := List.head?_dropWhile_not isTagBlank s.rest
      rw [show s.rest.dropWhile isTagBlank = s.skipBlanks.rest from rfl, hahead] at hfirst
      have hblank := he.blank c List.mem_cons_self
      simp [hblank] at hfirst

theorem skipBlanks_before {read text : List Char} (hread : read ≠ [])
    (h : s.skipBlanks.rest = read ++ text) (text' : List Char) :
    (s.before (s.rest.takeWhile isTagBlank ++ (read ++ text'))).skipBlanks =
      s.skipBlanks.before (read ++ text') := by
  have hrest : s.rest = s.rest.takeWhile isTagBlank ++ (read ++ text) := by
    rw [← h]
    exact List.takeWhile_append_dropWhile.symm
  obtain ⟨htake, hdrop⟩ := takeWhile_before hread (congrArg (List.takeWhile isTagBlank) hrest).symm
    text'
  unfold skipBlanks before
  dsimp only
  rw [htake, hdrop]

theorem next_text (hmode : s.mode = .text) : s.next = s.nextText := by
  rw [next, hmode]

theorem next_tag (hmode : s.mode = .tag) : s.next = s.skipBlanks.nextInTag := by
  rw [next, hmode]

theorem next_comment {opened : Position} (hmode : s.mode = .comment opened) :
    s.next = s.nextComment opened := by
  rw [next, hmode]

theorem next_commentEnd {marker : List Char} (hmode : s.mode = .commentEnd marker) :
    s.next = s.emit .commentEnd marker (marker ++ s.delimiters.commentEnd.toList) .text := by
  rw [next, hmode]
  rfl

/-- A delimiter that closes a tag or a comment has two characters, behind its marker. -/
theorem length_of_closer (hd : s.delimiters = .standard) (hturns : s.mode.Turns t.kind s'.mode)
    (h : s.next = .token t s') (ht : t.kind.isCloser) : 2 ≤ t.raw.toList.length := by
  have hlength : ∀ closer ∈ Delimiters.standard.toList, closer.toList.length = 2 := by decide
  rcases hturns.of_closer ht with ⟨marker, hmode⟩ | ⟨hmode, hmode'⟩
  · rw [next_commentEnd hmode] at h
    rw [raw_of_emit h, List.length_append, hd]
    exact Nat.le_add_left 2 _
  · rw [next_tag hmode] at h
    cases hrest : s.skipBlanks.rest with
    | nil =>
        rw [nextInTag, hrest] at h
        cases h
        cases hmode'
    | cons c text =>
        cases hcloser : markedCloser? s.skipBlanks.delimiters s.skipBlanks.rest with
        | none => cases (nextInTag_inner hrest hcloser h).symm.trans hmode'
        | some found =>
            obtain ⟨marker, closer, kind⟩ := found
            rw [nextInTag_of_closer (by simp [hrest]) hcloser] at h
            obtain ⟨hmem, -, -⟩ := markedCloser?_eq_some hcloser
            rw [raw_of_emit h, List.length_append, hlength closer (hd ▸ hmem)]
            exact Nat.le_add_left 2 _

/-- In front of another text the same token is read, if what the step looks at stays. -/
theorem next_before (hd : s.delimiters = .standard) (hs : s.Consistent) (h : s.next = .token t s')
    (hrest : s'.rest = rest ++ after) (heof : t.kind ≠ .eof)
    (hlong : t.kind.isCloser ∨ 2 ≤ rest.length)
    (hend : ∀ marker, s'.mode = .commentEnd marker → marker.length + 2 ≤ rest.length) :
    ∃ gap, s.rest = gap ++ (t.raw.toList ++ (rest ++ after)) ∧ ∀ after',
      (s.before (gap ++ (t.raw.toList ++ (rest ++ after')))).next =
        .token t (s'.before (rest ++ after')) := by
  have hsolid : s.delimiters.Solid := hd ▸ Delimiters.solid_of_check Delimiters.check_standard
  have hsteps := next_steps hsolid hs
  rw [h] at hsteps
  obtain ⟨gap, he⟩ := hsteps
  have hturns := he.turns
  have hahead : s.mode ≠ .tag → s.rest = t.raw.toList ++ (rest ++ after) := by
    intro hmode
    obtain rfl : gap = [] := Classical.byContradiction fun hne => hmode (he.inTag hne)
    rw [← hrest]
    exact he.ahead
  cases hmode : s.mode with
  | text =>
      have hrest' := hahead (by simp [hmode])
      have hopen : ¬ t.kind.isCloser := by
        intro hclose
        rcases hturns.of_closer hclose with ⟨_, hmode'⟩ | ⟨hmode', -⟩ <;>
          cases hmode.symm.trans hmode'
      rw [next_text hmode] at h
      refine ⟨[], hrest', fun after' => ?_⟩
      rw [next_text]
      · exact nextText_before hd h hrest' (hlong.resolve_left hopen) after'
      · exact hmode
  | tag =>
      have hraw := he.solid (hmode ▸ hturns).ne_comment heof
      rw [next_tag hmode] at h
      have hskipped := skipBlanks_ahead hsolid hmode h
      rw [hrest] at hskipped
      refine ⟨s.rest.takeWhile isTagBlank, ?_, fun after' => ?_⟩
      · rw [← hskipped]
        exact List.takeWhile_append_dropWhile.symm
      · rw [next_tag, skipBlanks_before hraw hskipped]
        · refine nextInTag_before (s := s.skipBlanks) hd h hskipped hraw
            (hlong.imp_left fun hclose => ?_) after'
          rcases hturns.of_closer hclose with ⟨_, hmode'⟩ | ⟨-, hmode'⟩
          · cases hmode.symm.trans hmode'
          · exact hmode'
        · exact hmode
  | comment opened =>
      have hrest' := hahead (by simp [hmode])
      obtain ⟨marker, hmode'⟩ : ∃ marker, s'.mode = .commentEnd marker := by
        rw [hmode] at hturns
        generalize t.kind = kind, s'.mode = mode' at hturns
        cases hturns
        exact ⟨_, rfl⟩
      rw [next_comment hmode] at h
      refine ⟨[], hrest', fun after' => ?_⟩
      rw [next_comment]
      · exact nextComment_before hd h hrest' hmode' (hend marker hmode') after'
      · exact hmode
  | commentEnd marker =>
      have hrest' := hahead (by simp [hmode])
      rw [next_commentEnd hmode] at h
      refine ⟨[], hrest', fun after' => ?_⟩
      rw [next_commentEnd, raw_of_emit h]
      · exact emit_before h _
      · exact hmode
  | finished =>
      rw [hmode] at hturns
      cases hturns

end

end Scanner

end TemplateCompiler
