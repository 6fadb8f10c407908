import TemplateCompiler.Proofs.Coverage

/-!
# Where a NUL can stand

Every mode of reading but one looks for NULs in what it reads: a text is searched before it becomes
a token, in a tag a NUL starts nothing, and a string that holds one, escaped or not, is faulty. Only
the body of a comment is taken as it is. So a NUL of a source that is read without fault stands in
the body of a comment, and a source whose comments hold none has none.

The delimiters must not hold a NUL themselves. A scanner behind the body of a comment has read the
whitespace marker already, and `MarkedPlainly` says that it holds none either.
-/

namespace TemplateCompiler

/-- Every character of a source that is read to its end stands in a token or is a blank between two
of them. -/
theorem Covers.token_or_blank {source : List Char} {ts : List Token} (h : Covers source ts none)
    {i : Nat} {c : Char} (hi : source[i]? = some c) :
    (∃ t ∈ ts, t.span.start.offset ≤ i ∧ i < t.span.stop.offset) ∨ Scanner.isTagBlank c := by
  obtain ⟨last, hlast, -, hend⟩ := h.last rfl
  have hlt : i < source.length := (List.getElem?_eq_some_iff.mp hi).1
  -- the last token that starts at `i` or before, and what follows it
  obtain ⟨before, t, after, hsplit, ht, hafter⟩ : ∃ before t after, ts = before ++ t :: after ∧
      t.span.start.offset ≤ i ∧ ∀ u ∈ after.head?, i < u.span.start.offset := by
    have hsplit := List.takeWhile_append_dropWhile (p := (·.span.start.offset ≤ i)) (l := ts)
    have hhead := List.head?_dropWhile_not (·.span.start.offset ≤ i) ts
    have hfront := List.eq_nil_or_concat (ts.takeWhile (·.span.start.offset ≤ i))
    rcases hfront with hnil | ⟨before, t, ht⟩
    · obtain ⟨first, rest, rfl⟩ : ∃ first rest, ts = first :: rest :=
        List.exists_cons_of_ne_nil (by rintro rfl; cases hlast)
      have hzero := h.first first rfl
      simp [hzero] at hnil
    · refine ⟨before, t, ts.dropWhile (·.span.start.offset ≤ i), ?_, ?_, fun u hu => ?_⟩
      · conv => lhs; rw [← hsplit, ht]
        simp
      · have hmem : t ∈ ts.takeWhile (·.span.start.offset ≤ i) := by simp [ht]
        simpa using List.all_eq_true.mp List.all_takeWhile t hmem
      · rw [Option.mem_def.mp hu] at hhead
        simpa using hhead
  by_cases hstop : i < t.span.stop.offset
  · exact .inl ⟨t, by simp [hsplit], ht, hstop⟩
  · cases after with
    | nil =>
        have heq : t = last := by simpa [hsplit] using hlast
        rw [heq, hend] at ht
        omega
    | cons u after =>
        have hu : i < u.span.start.offset := hafter u rfl
        refine .inr ((h.gaps before t u after hsplit).1 c ?_)
        refine List.mem_of_getElem? (i := i - t.span.stop.offset) ?_
        rw [Text.between, List.getElem?_drop, Nat.add_sub_cancel' (Nat.le_of_not_lt hstop),
          List.getElem?_take_of_lt hu, hi]

theorem Whitespace.ne_nul_of_isMarker {c : Char} (h : isMarker c = true) : c ≠ '\x00' := by
  rintro rfl
  revert h
  decide

theorem Delimiters.standard_noNul : ∀ delimiter ∈ standard.toList, '\x00' ∉ delimiter.toList := by
  decide

namespace Scanner

/-! ## Pieces of text -/

theorem leadingMarker_noNul (text : List Char) : '\x00' ∉ leadingMarker text :=
  fun h => Whitespace.ne_nul_of_isMarker (List.mem_filter.mp h).2 rfl

theorem splitMarker_noNul (body : List Char) : '\x00' ∉ (splitMarker body).2 := by
  unfold splitMarker
  split
  · next c hc =>
      split
      · next hmarker =>
          rw [List.mem_singleton]
          exact (Whitespace.ne_nul_of_isMarker hmarker).symm
      · exact List.not_mem_nil
  · exact List.not_mem_nil

theorem markedCloser?_noNul {d : Delimiters} {text marker : List Char} {closer : String}
    {kind : TokenKind} (h : markedCloser? d text = some (marker, closer, kind)) :
    '\x00' ∉ marker := by
  rcases Option.or_eq_some_iff.mp h with hmarked | ⟨-, hplain⟩
  · split at hmarked
    · next c rest =>
        split at hmarked
        · next hmarker =>
            obtain ⟨_, -, hpair⟩ := Option.map_eq_some_iff.mp hmarked
            obtain ⟨rfl, -⟩ := Prod.mk.inj hpair
            rw [List.mem_singleton]
            exact (Whitespace.ne_nul_of_isMarker hmarker).symm
        · cases hmarked
    · cases hmarked
  · obtain ⟨_, -, hpair⟩ := Option.map_eq_some_iff.mp hplain
    obtain ⟨rfl, -⟩ := Prod.mk.inj hpair
    exact List.not_mem_nil

theorem numberText_noNul (text : List Char) : '\x00' ∉ numberText text := by
  have hpiece : ∀ text : List Char, '\x00' ∉ text.takeWhile continuesNumber := by
    intro text hmem
    have hcontinues := List.all_eq_true.mp List.all_takeWhile _ hmem
    have hnot : continuesNumber '\x00' = false := by decide +kernel
    cases hnot.symm.trans hcontinues
  unfold numberText
  dsimp only
  split
  · next d after _ =>
      split
      · simp only [List.mem_append, List.mem_cons, not_or]
        exact ⟨hpiece _, by decide, hpiece _⟩
      · exact hpiece _
  · exact hpiece _

/-- What a string reads up to its closing quote holds no NUL, also not behind a backslash. -/
theorem stringBody_reads_noNul {opened place : Position} {quote : Char}
    {decoded text value rest : List Char} (hquote : quote ≠ '\x00')
    (h : stringBody opened quote place decoded text = .ok (value, rest)) :
    ∃ read, text = read ++ rest ∧ '\x00' ∉ read := by
  have hescaped : ∀ {c d : Char}, escaped? c = some d → '\x00' ≠ c := by
    rintro c d hd rfl
    cases hd
  fun_induction stringBody opened quote place decoded text with
  | case2 place decoded after =>
      obtain ⟨-, rfl⟩ := Prod.mk.inj (Except.ok.inj h)
      exact ⟨[quote], rfl, by simpa using hquote.symm⟩
  | case4 place decoded e after d hd hne ih =>
      obtain ⟨read, rfl, hread⟩ := ih h
      refine ⟨'\\' :: e :: read, rfl, ?_⟩
      exact List.not_mem_cons_of_ne_of_not_mem (by decide)
        (List.not_mem_cons_of_ne_of_not_mem (hescaped hd) hread)
  | case7 place decoded c after hne hslash hnul ih =>
      obtain ⟨read, rfl, hread⟩ := ih h
      exact ⟨c :: read, rfl, List.not_mem_cons_of_ne_of_not_mem (Ne.symm hnul) hread⟩
  | _ => cases h

/-! ## Steps -/

/-- No NUL stands in the delimiters, or in the whitespace marker that was read ahead. -/
structure MarkedPlainly (s : Scanner) : Prop where
  delimiters : ∀ delimiter ∈ s.delimiters.toList, '\x00' ∉ delimiter.toList
  marker : ∀ marker, s.mode = .commentEnd marker → '\x00' ∉ marker

/-- A step that reads no NUL, unless it reads the body of a comment. -/
def StepsPlainly : ScanStep → Prop
  | .token t s' => (t.kind ≠ .comment → '\x00' ∉ t.raw.toList) ∧ s'.MarkedPlainly
  | _ => True

section

variable {s : Scanner} {kind : TokenKind} {value raw : List Char} {mode : ScanMode}

theorem MarkedPlainly.emit (hs : s.MarkedPlainly) (hraw : '\x00' ∉ raw)
    (hmode : ∀ marker, mode ≠ .commentEnd marker) : StepsPlainly (s.emit kind value raw mode) :=
  ⟨fun _ => by rwa [String.toList_ofList], hs.delimiters, fun marker h => absurd h (hmode marker)⟩

theorem MarkedPlainly.nextText (hs : s.MarkedPlainly) : StepsPlainly s.nextText := by
  unfold Scanner.nextText
  split
  · exact hs.emit List.not_mem_nil (by simp)
  · split
    · next opener kind hopener =>
        have hmem := (opener?_eq_some hopener).1
        have hopen : '\x00' ∉ opener.toList := by
          refine hs.delimiters opener ?_
          simp only [Delimiters.openers, List.mem_cons, List.not_mem_nil, or_false] at hmem
          rcases hmem with rfl | rfl | rfl <;> simp [Delimiters.toList]
        refine hs.emit (by simpa using ⟨hopen, leadingMarker_noNul _⟩) fun marker h => ?_
        split at h <;> cases h
    · dsimp only
      split
      · trivial
      · next hnul => exact hs.emit (by simpa using hnul) (by simp)

theorem MarkedPlainly.nextComment {opened : Position} (hs : s.MarkedPlainly) :
    StepsPlainly (s.nextComment opened) := by
  unfold Scanner.nextComment
  split
  · trivial
  · next all _ =>
      have hmarker := splitMarker_noNul all
      refine ⟨fun h => absurd rfl h, hs.delimiters, ?_⟩
      rintro _ ⟨⟩
      exact hmarker

theorem MarkedPlainly.nextCommentEnd {marker : List Char} (hs : s.MarkedPlainly)
    (hmode : s.mode = .commentEnd marker) : StepsPlainly (s.nextCommentEnd marker) := by
  have hend := hs.delimiters s.delimiters.commentEnd (by simp [Delimiters.toList])
  exact hs.emit (by simpa using ⟨hs.marker marker hmode, hend⟩) (by simp)

theorem MarkedPlainly.nextWord (hs : s.MarkedPlainly) : StepsPlainly s.nextWord := by
  refine hs.emit (fun hmem => ?_) (by simp)
  have hcontinues := List.all_eq_true.mp List.all_takeWhile _ hmem
  have hnot : Token.continuesIdentifier '\x00' = false := by decide +kernel
  cases hnot.symm.trans hcontinues

theorem MarkedPlainly.nextString {quote : Char} {body : List Char} (hs : s.MarkedPlainly)
    (hrest : s.rest = quote :: body) (hquote : quote ≠ '\x00') :
    StepsPlainly (s.nextString quote body) := by
  unfold Scanner.nextString
  split
  · trivial
  · next value rest hbody =>
      obtain ⟨read, rfl, hread⟩ := stringBody_reads_noNul hquote hbody
      refine hs.emit ?_ (by simp)
      have htake : s.rest.take (s.rest.length - rest.length) = quote :: read := by
        rw [hrest, ← List.cons_append, List.length_append, Nat.add_sub_cancel, List.take_left]
      rw [htake]
      exact List.not_mem_cons_of_ne_of_not_mem hquote.symm hread

theorem MarkedPlainly.nextSign {c : Char} (hs : s.MarkedPlainly) (hc : c ≠ '\x00') :
    StepsPlainly (s.nextSign c) := by
  have hsigns : ∀ sign ∈ Token.operators, '\x00' ∉ sign.toList := by decide
  unfold Scanner.nextSign
  split
  · next sign hsign => exact hs.emit (hsigns sign (List.mem_of_find?_eq_some hsign)) (by simp)
  · split
    · exact hs.emit (by simpa using hc.symm) (by simp)
    · trivial

theorem MarkedPlainly.nextInTag (hs : s.MarkedPlainly) : StepsPlainly s.nextInTag := by
  unfold Scanner.nextInTag
  split
  · exact hs.emit List.not_mem_nil (by simp)
  · next c rest hrest =>
      split
      · next marker closer kind hcloser =>
          have hclose := hs.delimiters closer (markedCloser?_eq_some hcloser).1
          exact hs.emit (by simpa using ⟨markedCloser?_noNul hcloser, hclose⟩) (by simp)
      · split
        · trivial
        · next hnul =>
            split
            · exact hs.nextWord
            · split
              · exact hs.emit (numberText_noNul _) (by simp)
              · split
                · exact hs.nextString hrest hnul
                · exact hs.nextSign hnul

theorem MarkedPlainly.next (hs : s.MarkedPlainly) : StepsPlainly s.next := by
  unfold Scanner.next
  split
  · exact hs.nextText
  · next hmode =>
      have hskipped : s.skipBlanks.MarkedPlainly := ⟨hs.delimiters, hs.marker⟩
      exact hskipped.nextInTag
  · exact hs.nextComment
  · next hmode => exact hs.nextCommentEnd hmode
  · trivial

end

theorem run_noNul (fuel : Nat) (s : Scanner) (hs : s.MarkedPlainly) :
    ∀ t ∈ (run fuel s).1, t.kind ≠ .comment → '\x00' ∉ t.raw.toList := by
  induction fuel generalizing s with
  | zero => exact List.forall_mem_nil _
  | succ fuel ih =>
      have hnext := hs.next
      rw [run]
      split
      · exact List.forall_mem_nil _
      · exact List.forall_mem_nil _
      · next t s' hstep =>
          rw [hstep] at hnext
          exact List.forall_mem_cons.mpr ⟨hnext.1, ih s' hnext.2⟩

end Scanner

/-- Only the body of a comment can hold a NUL, whether the source is read to its end or not. -/
theorem tokenize_noNul {delimiters : Delimiters}
    (hnul : ∀ delimiter ∈ delimiters.toList, '\x00' ∉ delimiter.toList) (source unit : String) :
    ∀ t ∈ (tokenize source unit delimiters).1, t.kind ≠ .comment → '\x00' ∉ t.raw.toList :=
  Scanner.run_noNul _ _ ⟨hnul, fun _ h => by cases h⟩

/-- A source that is read without fault holds NULs in the bodies of its comments only, so if these
hold none, there is none. -/
theorem tokenize_nul_in_comment (source unit : String)
    (h : (tokenize source unit .standard).2 = none) :
    (∀ i, source.toList[i]? = some '\x00' →
      ∃ t ∈ (tokenize source unit .standard).1, t.kind = .comment ∧
        t.span.start.offset ≤ i ∧ i < t.span.stop.offset) ∧
    ((∀ t ∈ (tokenize source unit .standard).1, t.kind = .comment → '\x00' ∉ t.raw.toList) →
      '\x00' ∉ source.toList) := by
  have hcovers := tokenize_covers Delimiters.check_standard source unit
  have hplain := tokenize_noNul Delimiters.standard_noNul source unit
  rw [h] at hcovers
  have hin : ∀ i, source.toList[i]? = some '\x00' →
      ∃ t ∈ (tokenize source unit .standard).1, t.kind = .comment ∧ '\x00' ∈ t.raw.toList ∧
        t.span.start.offset ≤ i ∧ i < t.span.stop.offset := by
    intro i hi
    obtain ⟨t, ht, hstart, hstop⟩ | hblank := hcovers.token_or_blank hi
    · have hmem : '\x00' ∈ t.raw.toList := by
        rw [hcovers.raw t ht]
        refine List.mem_of_getElem? (i := i - t.span.start.offset) ?_
        rw [Text.between, List.getElem?_drop, Nat.add_sub_cancel' hstart,
          List.getElem?_take_of_lt hstop, hi]
      have hkind : t.kind = .comment :=
        Decidable.byContradiction fun hne => hplain t ht hne hmem
      exact ⟨t, ht, hkind, hmem, hstart, hstop⟩
    · have hnot : Scanner.isTagBlank '\x00' = false := by decide
      cases hnot.symm.trans hblank
  refine ⟨fun i hi => ?_, fun hcomments hmem => ?_⟩
  · obtain ⟨t, ht, hkind, -, hplace⟩ := hin i hi
    exact ⟨t, ht, hkind, hplace⟩
  · obtain ⟨i, hi⟩ := List.mem_iff_getElem?.mp hmem
    obtain ⟨t, ht, hkind, hbody, -⟩ := hin i hi
    exact hcomments t ht hkind hbody

/-- A comment with a NUL in it between a text and an expression. -/
theorem nul_in_comment_of_two_tags :
    let source := "a\x7b#- \x00 ~#\x7d\x7b\x7b 'b' \x7d\x7d"
    (tokenize source "page" .standard).2 = none ∧
      ((∀ i, source.toList[i]? = some '\x00' →
        ∃ t ∈ (tokenize source "page" .standard).1, t.kind = .comment ∧
          t.span.start.offset ≤ i ∧ i < t.span.stop.offset) ∧
      ((∀ t ∈ (tokenize source "page" .standard).1, t.kind = .comment → '\x00' ∉ t.raw.toList) →
        '\x00' ∉ source.toList)) :=
  ⟨by decide +kernel, tokenize_nul_in_comment _ _ (by decide +kernel)⟩

/-- A comment is read whatever it holds. -/
example : (tokenize "\x7b#\x00#\x7d" "page" .standard).2 = none := by decide +kernel

end TemplateCompiler
