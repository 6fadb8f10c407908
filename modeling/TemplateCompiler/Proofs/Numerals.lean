import TemplateCompiler.Template.Parser.Expression

/-!
# Numbers as they are written

A number in a tag is a run of digits, or two runs with a point between them. The reader of numbers
takes much more than that; on what a source holds it gives the value in base ten.

The scanner takes more for a digit than the reader does: a superscript starts a number and has no
place value. `readNumber_of_decimals` says that this, and too many digits, is all that can be wrong
with a number of a source.
-/

namespace TemplateCompiler

/-- The text of a number and what it stands for. -/
inductive NumberText : String → Literal → Prop
  | integer {digits : List Char} (hne : digits ≠ [])
      (hlength : digits.length ≤ Numeral.digitLimit) (hdigits : ∀ c ∈ digits, Numeral.isDigit c) :
      NumberText (String.ofList digits) (.integer (Numeral.digitsValue digits))
  | real {whole fraction : List Char} (hwhole : whole ≠ []) (hfraction : fraction ≠ [])
      (hdigits : ∀ c ∈ whole ++ fraction, Numeral.isDigit c) :
      NumberText (String.ofList (whole ++ '.' :: fraction))
        (.real ⟨false, Binary64.ofDecimal (Numeral.digitsValue (whole ++ fraction))
          (-(fraction.length : Int))⟩)

/-- A run of characters of one class ends where the class does. -/
theorem Text.split_run (p : Char → Bool) (run rest : List Char) (hrun : ∀ c ∈ run, p c = true)
    (hrest : ∀ c ∈ rest.head?, p c = false) :
    (run ++ rest).takeWhile p = run ∧ (run ++ rest).dropWhile p = rest := by
  rw [List.takeWhile_append_of_pos hrun, List.dropWhile_append_of_pos hrun]
  cases rest with
  | nil => exact ⟨List.append_nil run, rfl⟩
  | cons c rest =>
      have hc : ¬ p c = true := by simp [hrest c rfl]
      rw [List.takeWhile_cons_of_neg hc, List.dropWhile_cons_of_neg hc]
      exact ⟨List.append_nil run, rfl⟩

namespace Numeral

/-! ## Characters of a number -/

theorem mem_digits_of_isDigit {c : Char} (h : isDigit c = true) : c ∈ "0123456789".toList := by
  simp only [isDigit, Bool.and_eq_true, decide_eq_true_eq, Char.le_def, UInt32.le_iff_toNat_le] at h
  obtain ⟨hlow, hhigh⟩ := h
  have hval : c.val.toNat = 48 ∨ c.val.toNat = 49 ∨ c.val.toNat = 50 ∨ c.val.toNat = 51 ∨
      c.val.toNat = 52 ∨ c.val.toNat = 53 ∨ c.val.toNat = 54 ∨ c.val.toNat = 55 ∨
      c.val.toNat = 56 ∨ c.val.toNat = 57 := by
    have h0 : ('0' : Char).val.toNat = 48 := rfl
    have h9 : ('9' : Char).val.toNat = 57 := rfl
    omega
  have hc : c = Char.ofNat c.val.toNat := (Char.ofNat_toNat c).symm
  rcases hval with h | h | h | h | h | h | h | h | h | h <;> rw [h] at hc <;> subst hc <;> decide

/-- The characters of a number are no blanks, stand for themselves and are neither signs nor low
lines. -/
theorem plain_of_isDigit {c : Char} (h : isDigit c = true ∨ c = '.') :
    isBlank c = false ∧ asciiDigit c = c ∧ c ∉ ['-', '+', '_'] := by
  have hall : ("0123456789.".toList.all fun c =>
      isBlank c = false ∧ asciiDigit c = c ∧ c ∉ ['-', '+', '_']) = true := by
    decide +kernel
  refine of_decide_eq_true (List.all_eq_true.mp hall c ?_)
  rcases h with h | rfl
  · exact List.mem_append_left ['.'] (mem_digits_of_isDigit h)
  · decide

/-! ## Reading -/

/-- Nothing is taken off a text without blanks. -/
theorem normalized_eq_map {text : List Char} (h : ∀ c ∈ text, isBlank c = false) :
    normalized text = text.map asciiDigit := by
  have hdrop : ∀ us : List Char, (∀ c ∈ us, isBlank c = false) → us.dropWhile isBlank = us := by
    intro us hus
    cases us with
    | nil => rfl
    | cons c us => rw [List.dropWhile_cons_of_neg (by simp [hus c])]
  rw [normalized, hdrop text h, hdrop text.reverse fun c hc => h c (List.mem_reverse.mp hc),
    List.reverse_reverse]

theorem normalized_eq {text : List Char}
    (h : ∀ c ∈ text, isBlank c = false ∧ asciiDigit c = c) : normalized text = text := by
  rw [normalized_eq_map fun c hc => (h c hc).1]
  exact (List.map_congr_left fun c hc => (h c hc).2).trans (List.map_id' text)

theorem splitSign_eq {text : List Char} (h : ∀ c ∈ text, c ∉ ['-', '+']) :
    splitSign text = (false, text) := by
  cases text with
  | nil => rfl
  | cons c text =>
      have hc := h c (by simp)
      unfold splitSign
      split <;> simp_all

theorem joinGroups?_eq {text : List Char} (h : '_' ∉ text) (afterDigit : Bool) :
    joinGroups? afterDigit text = some text := by
  induction text generalizing afterDigit with
  | nil => rfl
  | cons c text ih =>
      obtain ⟨hc, htext⟩ := not_or.mp (mt List.mem_cons.mpr h)
      rw [joinGroups?, ih htext]
      · rfl
      · rintro _ _ rfl
        exact absurd rfl hc
      · rintro rfl
        exact absurd rfl hc

theorem readInteger_eq {digits : List Char} (hne : digits ≠ [])
    (hlength : digits.length ≤ digitLimit) (h : ∀ c ∈ digits, isDigit c) :
    readInteger (String.ofList digits) = .ok (digitsValue digits) := by
  have hplain := fun c hc => plain_of_isDigit (.inl (h c hc))
  obtain ⟨htake, hdrop⟩ := Text.split_run (fun c => isDigit c || c = '_') digits []
    (fun c hc => by simp [h c hc]) nofun
  rw [List.append_nil] at htake hdrop
  unfold readInteger
  rw [String.toList_ofList, normalized_eq fun c hc => ⟨(hplain c hc).1, (hplain c hc).2.1⟩,
    splitSign_eq fun c hc => by grind]
  dsimp only
  rw [htake, hdrop, joinGroups?_eq (by grind) false]
  simp [show ¬ digitLimit < digits.length by omega, hne]

theorem readReal_eq {whole fraction : List Char} (hwhole : whole ≠ [])
    (h : ∀ c ∈ whole ++ fraction, isDigit c) :
    readReal (String.ofList (whole ++ '.' :: fraction)) =
      .ok ⟨false, Binary64.ofDecimal (digitsValue (whole ++ fraction))
        (-(fraction.length : Int))⟩ := by
  have hplain : ∀ c ∈ whole ++ '.' :: fraction,
      isBlank c = false ∧ asciiDigit c = c ∧ c ∉ ['-', '+', '_'] := by
    intro c hc
    refine plain_of_isDigit ?_
    grind
  obtain ⟨htake, hdrop⟩ := Text.split_run isDigit whole ('.' :: fraction)
    (fun c hc => h c (List.mem_append_left _ hc)) (by rintro _ ⟨⟩; decide)
  obtain ⟨hfraction, hrest⟩ := Text.split_run isDigit fraction []
    (fun c hc => h c (List.mem_append_right _ hc)) nofun
  rw [List.append_nil] at hfraction hrest
  unfold readReal
  rw [String.toList_ofList, normalized_eq fun c hc => ⟨(hplain c hc).1, (hplain c hc).2.1⟩,
    joinGroups?_eq (by grind) false]
  dsimp only
  rw [splitSign_eq (by grind)]
  dsimp only
  rw [htake, hdrop]
  simp only [hfraction, hrest]
  simp [exponent?, hwhole]

/-! ## Digits of any script -/

/-- A decimal digit of any script is no blank, and its ASCII form is a digit. -/
theorem decimal_of_value {c : Char} {v : Nat} (h : Text.decimalValue? c = some v) :
    isBlank c = false ∧ isDigit (asciiDigit c) = true := by
  have hblank : (Text.decimalZeros.all fun first => (List.range 10).all fun k =>
      !isBlank (Char.ofNat (first + k))) = true := by
    decide +kernel
  have hascii : ((List.range 10).all fun k => isDigit (Char.ofNat ('0'.toNat + k))) = true := by
    decide +kernel
  unfold asciiDigit
  rw [h]
  unfold Text.decimalValue? at h
  obtain ⟨first, hfind, rfl⟩ := Option.map_eq_some_iff.mp h
  have hmem := List.mem_of_find?_eq_some hfind
  have hrange := List.find?_some hfind
  rw [Bool.and_eq_true, decide_eq_true_eq, decide_eq_true_eq] at hrange
  obtain ⟨hle, hlt⟩ := hrange
  have hk : c.toNat - first ∈ List.range 10 := List.mem_range.mpr (by omega)
  have hc : Char.ofNat (first + (c.toNat - first)) = c := by
    rw [Nat.add_sub_cancel' hle]
    exact Char.ofNat_toNat c
  refine ⟨?_, List.all_eq_true.mp hascii _ hk⟩
  have hnot := List.all_eq_true.mp (List.all_eq_true.mp hblank first hmem) _ hk
  rw [hc] at hnot
  simpa using hnot

/-- A run of digits of any script has the form of a run of ASCII digits. -/
theorem normalized_decimals {text : List Char}
    (h : ∀ c ∈ text, c = '.' ∨ ∃ v, Text.decimalValue? c = some v) :
    normalized text = normalized (text.map asciiDigit) ∧
      ∀ c ∈ text, c = '.' ∨ isDigit (asciiDigit c) = true := by
  have hchar : ∀ c ∈ text, isBlank c = false ∧
      (c = '.' ∨ isDigit (asciiDigit c) = true) ∧ asciiDigit (asciiDigit c) = asciiDigit c ∧
      isBlank (asciiDigit c) = false := by
    intro c hc
    rcases h c hc with rfl | ⟨v, hv⟩
    · exact ⟨by decide +kernel, .inl rfl, by decide +kernel, by decide +kernel⟩
    · obtain ⟨hblank, hdigit⟩ := decimal_of_value hv
      obtain ⟨hblank', hascii, -⟩ := plain_of_isDigit (.inl hdigit)
      exact ⟨hblank, .inr hdigit, hascii, hblank'⟩
  refine ⟨?_, fun c hc => (hchar c hc).2.1⟩
  rw [normalized_eq_map fun c hc => (hchar c hc).1, normalized_eq]
  intro c hc
  obtain ⟨d, hd, rfl⟩ := List.mem_map.mp hc
  exact ⟨(hchar d hd).2.2.2, (hchar d hd).2.2.1⟩

/-- Whether an integer can be read is a matter of its normalized form. -/
theorem readInteger_congr {text text' : String}
    (h : normalized text.toList = normalized text'.toList) {n : Int}
    (hn : readInteger text' = .ok n) : readInteger text = .ok n := by
  unfold readInteger at hn ⊢
  rw [h]
  dsimp only at hn ⊢
  split at hn
  · cases hn
  · next digits hdigits =>
      split at hn
      · cases hn
      · next hlimit =>
          rw [if_neg hlimit]
          split at hn
          · cases hn
          · next hne =>
              rw [if_neg hne]
              exact hn

theorem readReal_congr {text text' : String}
    (h : normalized text.toList = normalized text'.toList) {x : Binary64}
    (hx : readReal text' = .ok x) : readReal text = .ok x := by
  unfold readReal at hx ⊢
  rw [h]
  dsimp only at hx ⊢
  split at hx
  · cases hx
  · next body hbody =>
      split at hx
      · cases hx
      · split at hx
        all_goals
          split at hx
          · cases hx
          · next hne =>
              rw [if_neg hne]
              exact hx

end Numeral

/-- The reader of numbers gives a number the value that it stands for. -/
theorem NumberText.readNumber_eq {text : String} {value : Literal} (h : NumberText text value) :
    Parser.readNumber text = .ok value := by
  cases h with
  | integer hne hlength hdigits =>
      have hpoint : '.' ∉ _ := fun hc => absurd (hdigits _ hc) (by decide)
      rw [Parser.readNumber, String.toList_ofList, if_neg (by simpa using hpoint),
        Numeral.readInteger_eq hne hlength hdigits]
      rfl
  | real hwhole _ hdigits =>
      rw [Parser.readNumber, String.toList_ofList, if_pos (by simp),
        Numeral.readReal_eq hwhole hdigits]
      rfl

/-- The text of a number as a scanner takes it: digits, and perhaps a point and more of them. -/
inductive DigitText : List Char → Prop
  | whole {digits : List Char} (hne : digits ≠ []) (h : ∀ c ∈ digits, Text.isDigit c) :
      DigitText digits
  | pointed {whole fraction : List Char} (hwhole : whole ≠ []) (hfraction : fraction ≠ [])
      (h : ∀ c ∈ whole ++ fraction, Text.isDigit c) : DigitText (whole ++ '.' :: fraction)

/-- The number cannot be read: one of its digits has no place value, or it is an integer with too
many of them. -/
def OddNumber (text : List Char) : Prop :=
  (∃ c ∈ text, c ≠ '.' ∧ Text.decimalValue? c = none) ∨
    '.' ∉ text ∧ Numeral.digitLimit < text.length

/-- Every other number is read. -/
theorem DigitText.readNumber {text : String} (h : DigitText text.toList) :
    (∃ value, Parser.readNumber text = .ok value) ∨ OddNumber text.toList := by
  by_cases hodd : ∃ c ∈ text.toList, c ≠ '.' ∧ Text.decimalValue? c = none
  · exact .inr (.inl hodd)
  have hdecimal : ∀ c ∈ text.toList, c = '.' ∨ ∃ v, Text.decimalValue? c = some v := by
    intro c hc
    by_cases hpoint : c = '.'
    · exact .inl hpoint
    · refine .inr (Option.ne_none_iff_exists'.mp fun hnone => hodd ⟨c, hc, hpoint, hnone⟩)
  obtain ⟨hnormal, hdigits⟩ := Numeral.normalized_decimals hdecimal
  generalize htext : text.toList = cs at h hdecimal hdigits hnormal hodd ⊢
  have hnopoint : ∀ {us : List Char}, (∀ c ∈ us, Text.isDigit c) → '.' ∉ us := by
    intro us hus hmem
    have hpoint : Text.isDigit '.' = false := by decide +kernel
    rw [hus _ hmem] at hpoint
    cases hpoint
  cases h with
  | whole hne hall =>
      by_cases hlimit : Numeral.digitLimit < cs.length
      · exact .inr (.inr ⟨hnopoint hall, hlimit⟩)
      refine .inl ?_
      have hascii : ∀ c ∈ cs.map Numeral.asciiDigit, Numeral.isDigit c := by
        intro c hc
        obtain ⟨d, hd, rfl⟩ := List.mem_map.mp hc
        rcases hdigits d hd with rfl | h
        · exact absurd hd (hnopoint hall)
        · exact h
      have hread := Numeral.readInteger_eq (by simpa using hne)
        (by rw [List.length_map]; omega) hascii
      rw [Parser.readNumber, htext, if_neg (by simpa using hnopoint hall),
        Numeral.readInteger_congr (by rw [htext, String.toList_ofList, hnormal]) hread]
      exact ⟨_, rfl⟩
  | @pointed whole fraction hwhole hfraction hall =>
      refine .inl ?_
      have hascii : ∀ c ∈ whole.map Numeral.asciiDigit ++ fraction.map Numeral.asciiDigit,
          Numeral.isDigit c := by
        intro c hc
        rw [← List.map_append] at hc
        obtain ⟨d, hd, rfl⟩ := List.mem_map.mp hc
        have hmem : d ∈ whole ++ '.' :: fraction := by
          rcases List.mem_append.mp hd with hd | hd
          · exact List.mem_append_left _ hd
          · exact List.mem_append_right _ (List.mem_cons_of_mem _ hd)
        rcases hdigits d hmem with rfl | h
        · exact absurd hd (hnopoint hall)
        · exact h
      have hread := Numeral.readReal_eq (by simpa using hwhole) hascii
      have hpoint : Numeral.asciiDigit '.' = '.' := by decide +kernel
      rw [List.map_append, List.map_cons, hpoint] at hnormal
      rw [Parser.readNumber, htext, if_pos (by simp),
        Numeral.readReal_congr (by rw [htext, String.toList_ofList, hnormal]) hread]
      exact ⟨_, rfl⟩

end TemplateCompiler
