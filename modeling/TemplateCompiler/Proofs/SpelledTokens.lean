import TemplateCompiler.Proofs.WrittenSources

/-!
# What is spelled is scanned

A spelled template is written without comments and without markers, its strings between double
quotes and its numbers in decimal digits. So its segments are parts of a source, and the scanner
reads their lexemes back.
-/

namespace TemplateCompiler

/-! ## Lexemes of a tag -/

/-- What may stand between the delimiters of a tag. -/
inductive Lexeme.Inner : Lexeme → Prop
  | name {name : String} (h : IsName name) : Inner (.identifier, name)
  | keyword {word : String} (h : word ∈ Token.keywords) : Inner (.keyword, word)
  | operator {sign : String} (h : sign ∈ Token.operators) : Inner (.operator, sign)
  | string {value : String} (h : '\x00' ∉ value.toList) : Inner (.string, value)
  | number {digits : List Char} (hne : digits ≠ []) (h : ∀ c ∈ digits, Numeral.isDigit c) :
      Inner (.number, String.ofList digits)
  | punctuation {c : Char} {kind : TokenKind} (h : Token.punctuation? c = some kind) :
      Inner (kind, String.ofList [c])

theorem Text.isDigit_of_decimal {c : Char} (h : Numeral.isDigit c = true) : isDigit c = true := by
  have hall : ("0123456789".toList.all isDigit) = true := by decide +kernel
  exact List.all_eq_true.mp hall c (Numeral.mem_digits_of_isDigit h)

theorem Lexeme.Inner.written {l : Lexeme} (h : l.Inner) : l.Written l.text := by
  cases h with
  | name hname => exact .name hname
  | keyword hword => exact .keyword hword
  | operator hsign => exact .operator hsign
  | string hnul => exact .string (.inl rfl) hnul
  | number hne hdigits =>
      rw [Lexeme.text, String.toList_ofList]
      · exact .number (.whole hne fun c hc => Text.isDigit_of_decimal (hdigits c hc))
      · exact nofun
  | punctuation hc =>
      rw [Lexeme.text, String.toList_ofList]
      · exact .punctuation hc
      · exact (Scanner.punctuation?_eq_some hc).2.2

/-! ## Segments -/

namespace Segment

/-- Text has characters and no NUL, and a tag has lexemes of tags. -/
def WellFormed : Segment → Prop
  | .text value => value ≠ "" ∧ '\x00' ∉ value.toList
  | .block inside | .output inside => ∀ l ∈ inside, l.Inner

def part : Segment → SourcePart
  | .text value => .text value
  | .block inside => .tag .block none (inside.map fun l => (l, l.text)) none
  | .output inside => .tag .output none (inside.map fun l => (l, l.text)) none

@[simp]
theorem source_part (g : Segment) : g.part.source = g.source := by
  cases g with
  | text value => rfl
  | block inside | output inside =>
      rw [part, SourcePart.source, List.flatMap_map]
      rfl

@[simp]
theorem lexemes_part (g : Segment) : g.part.lexemes = g.lexemes := by
  cases g with
  | text value => rfl
  | block inside | output inside =>
      rw [part, SourcePart.lexemes, List.map_map]
      simp [Function.comp_def, lexemes, TagKind.opens, TagKind.closes, Whitespace.marker]

theorem WellFormed.part {g : Segment} (h : g.WellFormed) : g.part.WellFormed := by
  cases g with
  | text value => exact h
  | block inside | output inside =>
      intro item hitem
      obtain ⟨l, hl, rfl⟩ := List.mem_map.mp hitem
      exact (h l hl).written

end Segment

/-- What follows a text starts with its opening delimiter, so no opener that starts in the text
shows itself before. -/
theorem Legible.separate {segments : List Segment} (h : Legible segments) :
    SourcePart.Separate (segments.map Segment.part) := by
  induction segments with
  | nil => trivial
  | cons g segments ih =>
      cases g with
      | block inside => exact ih h
      | output inside => exact ih h
      | text value =>
          obtain ⟨hapart, hvalue, hlegible⟩ := h
          have hapart' : ∀ other more, segments.map Segment.part ≠ .text other :: more := by
            intro other more heq
            obtain ⟨g, more, rfl, hg, -⟩ := List.map_eq_cons_iff.mp heq
            cases g with
            | text value => exact hapart value more rfl
            | block inside | output inside => cases hg
          refine ⟨hapart', fun n hn opener hopener hbegins => ?_, ih hlegible⟩
          obtain ⟨rest, hrest, -⟩ := Scanner.firstOpener_begins hapart'
          refine hvalue n hn opener hopener (hbegins.trans ?_)
          have hsource : segments.flatMap Segment.source =
              (segments.map Segment.part).flatMap SourcePart.source := by
            simp [List.flatMap_map]
          have hlength : n ≤ (value.toList ++
              SourcePart.firstOpener (segments.map Segment.part)).length := by
            rw [List.length_append]
            omega
          rw [hsource, hrest, ← List.append_assoc, List.drop_append_of_le_length hlength]
          exact List.prefix_append _ _

/-- The tokens of a legible source have the lexemes that it was spelled by. -/
theorem tokenize_segments {segments : List Segment} (hsegments : ∀ g ∈ segments, g.WellFormed)
    (hlegible : Legible segments) (unit : String) :
    ∃ ts final, tokenize (String.ofList (segments.flatMap Segment.source)) unit .standard =
        (ts ++ [final], none) ∧
      ts.map Token.lexeme = segments.flatMap Segment.lexemes ∧ final.kind = .eof := by
  have hscans := Scanner.scans_parts
    (List.forall_mem_map.mpr fun g hg => (hsegments g hg).part) hlegible.separate
  simp only [List.flatMap_map, Segment.source_part, Segment.lexemes_part] at hscans
  obtain ⟨ts, fault, hts, hnone, htokens⟩ := hscans.tokenize unit
  obtain rfl := Option.map_eq_none_iff.mp hnone
  obtain ⟨us, vs, rfl, hus, hvs⟩ := List.map_eq_append_iff.mp hts
  obtain ⟨final, ws, rfl, hfinal, hws⟩ := List.map_eq_cons_iff.mp hvs
  obtain rfl := List.map_eq_nil_iff.mp hws
  exact ⟨us, final, htokens, hus, congrArg Prod.fst hfinal⟩

end TemplateCompiler
