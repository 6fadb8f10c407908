import TemplateCompiler.Proofs.Coverage
import TemplateCompiler.Proofs.Displaced
import TemplateCompiler.Proofs.Stretches

/-!
# Sources one behind the other

A source in the standard syntax that ends in a closing delimiter can be read on its own. With more
text behind it, it has the same tokens, but for its end; what follows has the tokens that it has
alone, counted on from where the first source ends (`tokenize_append`).

Three facts about the scanner are put together for this. No step up to a closing delimiter looks
behind it, so the first tokens do not change (`Scanner.Reads.before`). The delimiter leaves the
scanner between tags, where every text is begun. And from there on only the places differ, by the
same amount all the time, which makes them a case of `Position.GoesOn`.
-/

namespace TemplateCompiler

/-! ## Counting on -/

/-- Where the place `p` of a text is, when the text stands behind another one that ends at
`origin`. Only the first line goes on in the middle of a line. -/
def Position.shift (p origin : Position) : Position where
  line := origin.line + (p.line - 1)
  column := if p.line = 1 then origin.column + (p.column - 1) else p.column
  offset := origin.offset + p.offset

def Span.shift (s : Span) (origin : Position) : Span where
  start := s.start.shift origin
  stop := s.stop.shift origin
  unit := s.unit

def Token.shift (t : Token) (origin : Position) : Token :=
  { t with span := t.span.shift origin }

def Located.shift {π : Type} (f : Located π) (origin : Position) : Located π :=
  { f with span := f.span.shift origin }

/-- A place of a text and the one it is at behind another text. Lines and columns are counted from
one, or the place before the first could not be told from the first. -/
structure Position.ShiftedBy (origin p q : Position) : Prop where
  line : 1 ≤ p.line
  column : 1 ≤ p.column
  eq : q = p.shift origin

theorem Position.shift_next {origin p : Position} (hline : 1 ≤ p.line) (hcolumn : 1 ≤ p.column)
    (c : Char) : (p.shift origin).next c = (p.next c).shift origin := by
  have hlines : origin.line + (p.line - 1) + 1 = origin.line + p.line := by omega
  have hcolumns : origin.column + (p.column - 1) + 1 = origin.column + p.column := by omega
  unfold next shift
  by_cases hc : c = '\n'
  · rw [if_pos hc, if_pos hc]
    have hlater : p.line + 1 ≠ 1 := by omega
    simp only [hlater, if_false, Nat.add_sub_cancel, hlines, Nat.add_assoc]
  · rw [if_neg hc, if_neg hc]
    by_cases hfirst : p.line = 1
    · simp only [hfirst, if_true, Nat.add_sub_cancel, hcolumns, Nat.add_assoc]
    · simp only [hfirst, if_false, Nat.add_assoc]

theorem Position.shiftedBy_goesOn (origin : Position) : GoesOn origin.ShiftedBy := by
  rintro p q c ⟨hline, hcolumn, rfl⟩
  refine ⟨?_, ?_, shift_next hline hcolumn c⟩ <;> unfold next <;> split
  · exact Nat.le_add_left 1 _
  · exact hline
  · exact Nat.le_refl 1
  · exact Nat.le_add_left 1 _

theorem Position.shiftedBy_initial (origin : Position) : origin.ShiftedBy .initial origin :=
  ⟨Nat.le_refl 1, Nat.le_refl 1, rfl⟩

section

variable {origin : Position}

theorem Span.Displaced.eq_shift {s s' : Span} (h : s.Displaced origin.ShiftedBy s') :
    s' = s.shift origin := by
  obtain ⟨start, stop, unit⟩ := s'
  obtain ⟨⟨-, -, rfl⟩, ⟨-, -, rfl⟩, rfl⟩ := h
  rfl

theorem Token.Displaced.eq_shift {t u : Token} (h : t.Displaced origin.ShiftedBy u) :
    u = t.shift origin := by
  obtain ⟨kind, value, raw, span⟩ := u
  obtain ⟨rfl, rfl, rfl, hspan⟩ := h
  obtain rfl : span = _ := hspan.eq_shift
  rfl

theorem Located.Displaced.eq_shift {π : Type} {f g : Located π}
    (h : f.Displaced origin.ShiftedBy g) : g = f.shift origin := by
  obtain ⟨problem, span⟩ := g
  obtain ⟨rfl, hspan⟩ := h
  obtain rfl : span = _ := hspan.eq_shift
  rfl

/-- What is read behind `origin` is what is read alone, counted on. -/
theorem Scanner.Displaced.run_eq_shift {s s' : Scanner} (h : s.Displaced origin.ShiftedBy s')
    (fuel : Nat) :
    s'.run fuel = ((s.run fuel).1.map (·.shift origin), (s.run fuel).2.map (·.shift origin)) := by
  obtain ⟨htokens, hfault⟩ := h.run origin.shiftedBy_goesOn fuel
  refine Prod.ext_iff.mpr ⟨?_, ?_⟩
  · have hall : List.Forall₂ (· = ·) ((s.run fuel).1.map (·.shift origin)) (s'.run fuel).1 :=
      List.forall₂_map_left_iff.mpr (htokens.imp fun _ _ ht => ht.eq_shift.symm)
    exact (List.forall₂_eq_eq_eq ▸ hall).symm
  · generalize (s.run fuel).2 = fault, (s'.run fuel).2 = fault' at hfault
    cases hfault with
    | none => rfl
    | some hf => exact congrArg some hf.eq_shift

end

/-! ## Where a source can be cut -/

/-- A closing delimiter leads out of its tag or comment. -/
theorem ScanMode.Turns.text_of_closer {mode mode' : ScanMode} {kind : TokenKind}
    (h : mode.Turns kind mode') (hkind : kind.isCloser) : mode' = .text := by
  rcases h.of_closer hkind with ⟨marker, rfl⟩ | ⟨-, hmode'⟩
  · cases h
    rfl
  · exact hmode'

namespace Scanner

variable {first unit : String} {delimiters : Delimiters} {ts : List Token} {close : Token}
  {s : Scanner}

/-- Where the scanner of a source stands behind a closing delimiter. -/
theorem Reads.behind_closer (hd : delimiters.check = .ok ())
    (h : (ofSource first unit delimiters).Reads (ts ++ [close]) s) (hclose : close.kind.isCloser) :
    s.mode = .text ∧ s.position = close.span.stop ∧
      ∃ text, first.toList = text ++ s.rest ∧ s.position = .behind text := by
  have hsolid := Delimiters.solid_of_check hd
  have hs : (ofSource first unit delimiters).Consistent := nofun
  obtain ⟨s₁, hfront, hlast⟩ := h.split
  have hreached := hfront.reached hsolid hs
  obtain ⟨s₂, gap, -, he, hdone⟩ := hlast.emits (hreached.delimiters ▸ hsolid) hreached.consistent
  cases hdone
  obtain ⟨text, htext, hplace⟩ := (h.reached hsolid hs).place
  refine ⟨he.turns.text_of_closer hclose, ?_, text, htext, ?_⟩
  · rw [he.span]
  · exact hplace.trans (Position.behind_advance [] text)

/-- Behind a source that ends in a closing delimiter, a second one is begun as if it stood alone. -/
theorem Reads.onto (h : (ofSource first unit .standard).Reads (ts ++ [close]) s)
    (hclose : close.kind.isCloser) (hend : close.span.stop.offset = first.toList.length)
    (second : String) :
    close.span.stop = .behind first.toList ∧
      (ofSource (first ++ second) unit .standard).Reads (ts ++ [close]) (s.before second.toList) ∧
      (ofSource second unit .standard).Displaced close.span.stop.ShiftedBy
        (s.before second.toList) := by
  have hs : (ofSource first unit .standard).Consistent := nofun
  obtain ⟨hmode, hplace, text, htext, hbehind⟩ := h.behind_closer Delimiters.check_standard hclose
  -- all of the first source lies before the delimiter's end
  have hrest : s.rest = [] := by
    have hlength := congrArg List.length htext
    rw [List.length_append, ← hend, ← hplace, hbehind] at hlength
    exact List.length_eq_zero_iff.mp (Nat.left_eq_add.mp hlength)
  rw [hrest, List.append_nil] at htext
  obtain ⟨text', htext', -, hreads⟩ := h.before rfl hs (by simpa using hclose)
  obtain rfl : first.toList = text' := by rw [← List.append_nil text', ← hrest, ← htext']; rfl
  have hjoined : (ofSource first unit .standard).before (first.toList ++ second.toList) =
      ofSource (first ++ second) unit .standard := by
    rw [ofSource, ofSource, Scanner.before, String.toList_append]
  have hreached := h.reached (Delimiters.solid_of_check Delimiters.check_standard) hs
  refine ⟨?_, hjoined ▸ hreads second.toList, hreached.delimiters, hreached.unit, ?_, rfl, ?_⟩
  · rw [← hplace, hbehind, htext]
  · show close.span.stop.ShiftedBy Position.initial s.position
    rw [hplace]
    exact Position.shiftedBy_initial _
  · show ScanMode.text.Displaced _ s.mode
    rw [hmode]
    exact .text

end Scanner

/-- A source that ends in a closing delimiter is read in front of every other one as it is alone,
and the other one as it is alone but for its places. -/
theorem tokenize_append (first second unit : String) {ts : List Token} {close last : Token}
    (htokens : tokenize first unit .standard = (ts ++ [close, last], none))
    (hclose : close.kind.isCloser) (hend : close.span.stop.offset = first.toList.length) :
    last.kind = .eof ∧ close.span.stop = .behind first.toList ∧
      tokenize (first ++ second) unit .standard =
        (ts ++ [close] ++ (tokenize second unit .standard).1.map (·.shift close.span.stop),
          (tokenize second unit .standard).2.map (·.shift close.span.stop)) := by
  obtain ⟨s, hreads⟩ := Scanner.reads_of_tokenize
    (show _ = (ts ++ [close]) ++ [last] by rw [htokens, List.append_assoc]; rfl)
  obtain ⟨hbehind, hjoined, hdisplaced⟩ := hreads.onto hclose hend second
  refine ⟨?_, hbehind, ?_⟩
  · obtain ⟨t, ht, heof, -⟩ := (tokenize_covers Delimiters.check_standard first unit).last
      (by rw [htokens])
    rw [htokens, List.getLast?_append_cons] at ht
    obtain rfl := Option.some.inj ht
    exact heof
  · have hweight : (s.before second.toList).weight =
        (Scanner.ofSource second unit .standard).weight := by
      have hmode := (hreads.behind_closer Delimiters.check_standard hclose).1
      unfold Scanner.weight
      rw [show (s.before second.toList).mode = .text from hmode]
      rfl
    rw [hjoined.tokenize Delimiters.check_standard, hweight, hdisplaced.run_eq_shift,
      Scanner.Reads.done.tokenize Delimiters.check_standard]
    rfl

/-- A comment and a tag with a string over two lines each, in front of a tag that a bad escape ends
on its second line. -/
theorem tokenize_append_of_unknown_escape :
    let first := "a\x7b#- b\n-#\x7d\x7b% if 'c\nd' + 1.5 -%\x7d"
    let second := "e \x7b\x7b f\n | '\\q' \x7d\x7d"
    let ts := (tokenize first "page" .standard).1.take 9
    let close : Token := ⟨.blockEnd, "-", "-%\x7d", ⟨⟨3, 10, 28⟩, ⟨3, 13, 31⟩, "page"⟩⟩
    let last : Token := ⟨.eof, "", "", ⟨⟨3, 13, 31⟩, ⟨3, 13, 31⟩, "page"⟩⟩
    tokenize first "page" .standard = (ts ++ [close, last], none) ∧ close.kind.isCloser ∧
      close.span.stop.offset = first.toList.length ∧
      (tokenize (first ++ second) "page" .standard).2 =
        some ⟨.unknownEscape 'q', ⟨⟨4, 5, 42⟩, ⟨4, 7, 44⟩, "page"⟩⟩ ∧
      tokenize (first ++ second) "page" .standard =
        (ts ++ [close] ++ (tokenize second "page" .standard).1.map (·.shift close.span.stop),
          (tokenize second "page" .standard).2.map (·.shift close.span.stop)) := by
  intro first second ts close last
  have htokens : tokenize first "page" .standard = (ts ++ [close, last], none) := by decide +kernel
  have hend : close.span.stop.offset = first.toList.length := by decide +kernel
  obtain ⟨-, -, hall⟩ := tokenize_append first second "page" htokens rfl hend
  exact ⟨htokens, rfl, hend, by decide +kernel, hall⟩

end TemplateCompiler
