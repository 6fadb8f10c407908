import TemplateCompiler.Proofs.ScanSteps
import TemplateCompiler.Proofs.TokenOrder

/-!
# Tokens cover their source

Every token is the stretch of source that its span names, only blanks inside a tag lie between one
token and the next, and a source that is read without fault is read to its end. All positions are
true ones: they say how many lines and characters of the source lie before them.

`ReadUpTo` is what holds of the tokens read so far when the scanner has come to some place; one step
preserves it, and a run preserves it by induction.
-/

namespace TemplateCompiler

/-! ## True positions -/

namespace Position

/-- The place behind a text: lines end at line feeds, and columns count from the last of them. -/
def behind (text : List Char) : Position where
  line := 1 + text.count '\n'
  column := 1 + (text.reverse.takeWhile (· ≠ '\n')).length
  offset := text.length

/-- The position says truly where its offset lies in the source. -/
def TrueIn (source : List Char) (p : Position) : Prop :=
  p.offset ≤ source.length ∧ p = behind (source.take p.offset)

theorem behind_next (text : List Char) (c : Char) :
    (behind text).next c = behind (text ++ [c]) := by
  unfold next behind
  split
  · next hc =>
      subst hc
      simp
      omega
  · next hc =>
      simp [hc]
      omega

theorem behind_advance (before text : List Char) :
    (behind before).advance text = behind (before ++ text) := by
  induction text generalizing before with
  | nil => simp [advance]
  | cons c text ih =>
      have hstep := ih (before ++ [c])
      rw [List.append_assoc] at hstep
      rw [← List.singleton_append, advance_append, ← hstep]
      exact congrArg (advance · text) (behind_next before c)

theorem trueIn_behind {before source : List Char} (h : before <+: source) :
    (behind before).TrueIn source := by
  obtain ⟨after, rfl⟩ := h
  refine ⟨by simp [behind], ?_⟩
  rw [show (behind before).offset = before.length from rfl, List.take_left]

end Position

/-- Both ends of the span are true, and the end does not lie before the start. -/
structure Span.TrueIn (source : List Char) (s : Span) : Prop where
  start : s.start.TrueIn source
  stop : s.stop.TrueIn source
  forward : s.start.offset ≤ s.stop.offset

/-- The characters of a text from one offset up to but not including another. -/
def Text.between (text : List Char) (first last : Nat) : List Char :=
  (text.take last).drop first

theorem Text.between_behind (before text after : List Char) :
    between (before ++ text ++ after) (Position.behind before).offset
      (Position.behind (before ++ text)).offset = text := by
  unfold between Position.behind
  rw [List.take_left, List.drop_left]

/-! ## Covering -/

/-- Does a place behind these tokens lie inside a block or an expression tag? The last delimiter
among the tokens tells. -/
def Token.insideTag (ts : List Token) : Bool :=
  match (ts.filter fun t => t.kind.isOpener || t.kind.isCloser).getLast? with
  | some t => t.kind = .blockStart || t.kind = .exprStart
  | none => false

namespace Token

variable {ts : List Token} {t : Token}

/-- The delimiter that was read last tells what is inside a tag. -/
theorem insideTag_of_open (h : t.kind = .blockStart ∨ t.kind = .exprStart) :
    insideTag (ts ++ [t]) = true := by
  rcases h with h | h <;> simp [insideTag, h, TokenKind.isOpener]

theorem insideTag_of_inner (h : t.kind.isInner) : insideTag (ts ++ [t]) = insideTag ts := by
  have hneither : (t.kind.isOpener || t.kind.isCloser) = false := by
    generalize t.kind = kind at h ⊢
    cases kind <;> first | rfl | cases h
  simp [insideTag, hneither]

end Token

/-- The tokens of a source, up to the fault that ended them if there is one, cover it. -/
structure Covers (source : List Char) (ts : List Token) (fault : Option LexicalFault) : Prop where
  raw : ∀ t ∈ ts, t.raw.toList = Text.between source t.span.start.offset t.span.stop.offset
  spans : ∀ t ∈ ts, t.span.TrueIn source
  apart : ts.Pairwise fun t u => t.span.stop.offset ≤ u.span.start.offset
  first : ∀ t ∈ ts.head?, t.span.start.offset = 0
  gaps : ∀ before t u after, ts = before ++ t :: u :: after →
    (∀ c ∈ Text.between source t.span.stop.offset u.span.start.offset, Scanner.isTagBlank c) ∧
      (t.span.stop.offset < u.span.start.offset → Token.insideTag (before ++ [t]))
  last : fault = none → ∃ t ∈ ts.getLast?, t.kind = .eof ∧ t.span.start.offset = source.length
  fault : ∀ f, fault = some f → f.span.TrueIn source

namespace Scanner

/-- The scanner has come to the end of `done`, and `ts` is what it read on the way. -/
structure ReadUpTo (source done : List Char) (ts : List Token) (s : Scanner) : Prop where
  split : source = done ++ s.rest
  place : s.position = .behind done
  raw : ∀ t ∈ ts, t.raw.toList = Text.between source t.span.start.offset t.span.stop.offset
  spans : ∀ t ∈ ts, t.span.TrueIn source
  first : ∀ t ∈ ts.head?, t.span.start.offset = 0
  last : ∀ t ∈ ts.getLast?, t.span.stop = s.position
  unread : ts = [] → done = [] ∧ s.mode = .text
  gaps : ∀ before t u after, ts = before ++ t :: u :: after →
    (∀ c ∈ Text.between source t.span.stop.offset u.span.start.offset, isTagBlank c) ∧
      (t.span.stop.offset < u.span.start.offset → Token.insideTag (before ++ [t]))
  inside : s.mode = .tag → Token.insideTag ts
  opened : ∀ p, s.mode = .comment p → p.TrueIn source ∧ p.offset ≤ s.position.offset
  finished : s.mode = .finished →
    ∃ t ∈ ts.getLast?, t.kind = .eof ∧ t.span.start.offset = source.length

section

variable {source done gap : List Char} {ts : List Token} {s s' : Scanner} {t : Token}

theorem ReadUpTo.start (hd : s.position = .behind done) (he : s.Emits gap t s') :
    t.span.start = .behind (done ++ gap) := by
  rw [he.span, hd]
  exact Position.behind_advance done gap

theorem ReadUpTo.stop (hd : s.position = .behind done) (he : s.Emits gap t s') :
    t.span.stop = .behind (done ++ gap ++ t.raw.toList) := by
  rw [he.span, List.append_assoc, ← Position.behind_advance, ← hd]
  exact he.place

theorem ReadUpTo.initial (source unit : String) (delimiters : Delimiters) :
    ReadUpTo source.toList [] [] (ofSource source unit delimiters) where
  split := rfl
  place := rfl
  raw := List.forall_mem_nil _
  spans := List.forall_mem_nil _
  first := nofun
  last := nofun
  unread _ := ⟨rfl, rfl⟩
  gaps before t u after h := by simp at h
  inside := nofun
  opened := nofun
  finished := nofun

/-- Between the last token and the next one lies what the step skipped. -/
theorem ReadUpTo.gap_behind (h : ReadUpTo source done ts s) (he : s.Emits gap t s') {u : Token}
    (hu : u ∈ ts.getLast?) :
    (∀ c ∈ Text.between source u.span.stop.offset t.span.start.offset, isTagBlank c) ∧
      (u.span.stop.offset < t.span.start.offset → Token.insideTag ts) := by
  have hsource : source = done ++ gap ++ (t.raw.toList ++ s'.rest) := by
    rw [h.split, he.ahead]
    simp
  rw [h.last u hu, h.place, ReadUpTo.start h.place he]
  refine ⟨?_, fun hlt => h.inside (he.inTag ?_)⟩
  · rw [hsource, Text.between_behind]
    exact he.blank
  · rintro rfl
    simp at hlt

theorem ReadUpTo.span_behind (h : ReadUpTo source done ts s) (he : s.Emits gap t s') :
    t.span.TrueIn source := by
  have hsource : source = done ++ gap ++ t.raw.toList ++ s'.rest := by
    rw [h.split, he.ahead]
    simp
  have hstart := ReadUpTo.start h.place he
  have hstop := ReadUpTo.stop h.place he
  have hbefore : done ++ gap <+: source := by
    rw [hsource, List.append_assoc]
    exact List.prefix_append _ _
  refine ⟨hstart ▸ Position.trueIn_behind hbefore,
    hstop ▸ Position.trueIn_behind ⟨_, hsource.symm⟩, ?_⟩
  rw [hstart, hstop]
  simp [Position.behind]

/-- Nothing is skipped before the first token. -/
theorem ReadUpTo.start_first (h : ReadUpTo source done [] s) (he : s.Emits gap t s') :
    t.span.start.offset = 0 := by
  obtain ⟨rfl, hmode⟩ := h.unread rfl
  have hgap : gap = [] :=
    Classical.byContradiction fun hne => nomatch hmode.symm.trans (he.inTag hne)
  rw [ReadUpTo.start h.place he, hgap]
  rfl

/-- A tag is entered by an opening delimiter, and what stands in it does not leave it. -/
theorem ReadUpTo.inside_behind (h : ReadUpTo source done ts s) (he : s.Emits gap t s')
    (hmode : s'.mode = .tag) : Token.insideTag (ts ++ [t]) := by
  have hturns := he.turns
  rw [hmode] at hturns
  have hcases : (t.kind = .blockStart ∨ t.kind = .exprStart) ∨
      t.kind.isInner ∧ s.mode = .tag := by
    generalize s.mode = mode, t.kind = kind at hturns ⊢
    cases hturns with
    | openTag hkind => exact .inl hkind
    | inner hkind => exact .inr ⟨hkind, rfl⟩
  rcases hcases with hkind | ⟨hkind, hbefore⟩
  · exact Token.insideTag_of_open hkind
  · exact (Token.insideTag_of_inner hkind).trans (h.inside hbefore)

/-- What one step preserves. -/
theorem ReadUpTo.step (h : ReadUpTo source done ts s) (he : s.Emits gap t s') :
    ReadUpTo source (done ++ gap ++ t.raw.toList) (ts ++ [t]) s' := by
  have hsource : source = done ++ gap ++ t.raw.toList ++ s'.rest := by
    rw [h.split, he.ahead]
    simp
  have hstart := ReadUpTo.start h.place he
  have hstop := ReadUpTo.stop h.place he
  have hplace : s'.position = t.span.stop := by rw [he.span]
  refine { split := hsource, place := hplace.trans hstop, raw := ?_, spans := ?_, first := ?_,
           last := ?_, unread := ?_, gaps := ?_, inside := h.inside_behind he, opened := ?_,
           finished := ?_ }
  · refine List.forall_mem_append.mpr ⟨h.raw, List.forall_mem_singleton.mpr ?_⟩
    rw [hstart, hstop, hsource]
    exact (Text.between_behind _ _ _).symm
  · exact List.forall_mem_append.mpr
      ⟨h.spans, List.forall_mem_singleton.mpr (h.span_behind he)⟩
  · intro u hu
    cases ts with
    | nil =>
        obtain rfl : t = u := Option.some.inj hu
        exact h.start_first he
    | cons first rest => exact h.first u hu
  · intro u hu
    rw [List.getLast?_concat] at hu
    obtain rfl := Option.some.inj hu
    exact hplace.symm
  · intro hnil
    simp at hnil
  · intro before u v after hsplit
    rcases List.eq_nil_or_concat after with rfl | ⟨after, last, rfl⟩
    · have hsplit : ts ++ [t] = before ++ [u] ++ [v] := by simpa using hsplit
      obtain ⟨hts, hlast⟩ := List.append_inj' hsplit rfl
      obtain rfl := List.singleton_inj.mp hlast
      exact hts ▸ h.gap_behind he (by simp [hts])
    · have hsplit : ts ++ [t] = before ++ u :: v :: after ++ [last] := by simpa using hsplit
      exact h.gaps before u v after (List.append_inj' hsplit rfl).1
  · intro p hmode
    obtain rfl := he.opened p hmode
    refine ⟨?_, ?_⟩
    · rw [h.place]
      exact Position.trueIn_behind ⟨s.rest, h.split.symm⟩
    · rw [he.place, Position.advance_offset]
      exact Nat.le_add_right _ _
  · intro hmode
    have hturns := he.turns
    rw [hmode] at hturns
    have hkind : t.kind = .eof := hturns.eof_of_finished
    obtain ⟨hraw, hrest⟩ := he.ended hkind
    refine ⟨t, by simp, hkind, ?_⟩
    rw [hstart, hsource, hraw, hrest]
    simp [Position.behind]

/-- A fault lies in the source, and so does the opening delimiter of a comment. -/
theorem ReadUpTo.fault (h : ReadUpTo source done ts s) {f : LexicalFault} (hf : s.Faults f) :
    f.span.TrueIn source := by
  obtain ⟨a, b, ⟨after, hafter⟩, hstop, hstart⟩ := hf.stop
  have hsource : source = done ++ (a ++ b) ++ after := by
    rw [h.split, ← hafter]
    simp
  have hahead : ∀ c, c <+: a ++ b → (s.position.advance c).TrueIn source := by
    rintro c ⟨more, hmore⟩
    rw [h.place, Position.behind_advance]
    refine Position.trueIn_behind ⟨more ++ after, ?_⟩
    rw [hsource, ← hmore]
    simp
  have hend : f.span.stop.TrueIn source := by
    rw [hstop]
    exact hahead _ List.prefix_rfl
  rcases hstart with hstart | ⟨rfl, rfl, hcomment⟩
  · refine ⟨?_, hend, ?_⟩
    · rw [hstart]
      exact hahead a (List.prefix_append a b)
    · rw [hstart, hstop]
      simp
  · obtain ⟨hopened, hle⟩ := h.opened _ hcomment
    refine ⟨hopened, hend, ?_⟩
    rw [hstop]
    simpa using hle

end

end Scanner

/-- Where the scanner of a source stands when it stops. -/
theorem tokenize_readUpTo {delimiters : Delimiters} (hd : delimiters.check = .ok ())
    (source unit : String) :
    ∃ s done, Scanner.ReadUpTo source.toList done (tokenize source unit delimiters).1 s ∧
      (∀ f, (tokenize source unit delimiters).2 = some f → s.Faults f) ∧
      ((tokenize source unit delimiters).2 = none → s.mode = .finished) := by
  obtain ⟨s, ⟨done, h⟩, hfault, hend⟩ := Scanner.run_preserves
    (P := fun ts s => ∃ done, Scanner.ReadUpTo source.toList done ts s)
    (fun ts s gap t s' ⟨done, h⟩ he => ⟨_, h.step he⟩) (Scanner.fuelFor source.toList) []
    (.ofSource source unit delimiters) ⟨[], .initial source unit delimiters⟩
    (Delimiters.solid_of_check hd) nofun
  have hweight : (Scanner.ofSource source unit delimiters).weight ≤
      Scanner.fuelFor source.toList := by
    simp only [Scanner.weight, Scanner.ofSource, Scanner.fuelFor]
    omega
  exact ⟨s, done, h, hfault, fun hnone => hend hnone hweight⟩

/-- The tokens of a source cover it, and all positions in them and in a fault are true. -/
theorem tokenize_covers {delimiters : Delimiters} (hd : delimiters.check = .ok ())
    (source unit : String) :
    Covers source.toList (tokenize source unit delimiters).1
      (tokenize source unit delimiters).2 := by
  obtain ⟨s, done, h, hfault, hend⟩ := tokenize_readUpTo hd source unit
  refine { raw := h.raw, spans := h.spans, apart := (tokenize_inOrder source unit delimiters).apart,
           first := h.first, gaps := h.gaps, last := fun hnone => h.finished (hend hnone),
           fault := fun f hf => h.fault (hfault f hf) }

/-- A tag over two lines with a marker at each end, a comment, and a string that is never closed. -/
theorem covers_of_unterminated_string :
    let source := "a\r\n\x7b%- if 'x\ny' -%\x7d\x7b#- c -#\x7d\n\x7b\x7b \"b"
    Delimiters.standard.check = .ok () ∧
      (tokenize source "page" .standard).1.length = 10 ∧
      (tokenize source "page" .standard).2.isSome ∧
      Covers source.toList (tokenize source "page" .standard).1
        (tokenize source "page" .standard).2 :=
  ⟨Delimiters.check_standard, by decide +kernel, by decide +kernel,
    tokenize_covers Delimiters.check_standard _ _⟩

end TemplateCompiler
