import TemplateCompiler.Token.Basic

/-!
# Letters go on with what they start

A character that may start an identifier may also continue one, so no identifier is empty, and no
digit starts one. The classes of characters are run lengths of code points, and that one class lies
within another is found by going through the runs of both at once. Read with inside and outside
exchanged, the runs of a class are those of its complement, so that two classes are found apart in
the same way.
-/

namespace TemplateCompiler

namespace Text.CodePoints

/-- Is every code point inside the first runs inside the second ones too? Each step uses up a run
of one list, so `fuel` is enough if it is the number of all runs. -/
def within : Nat → List Nat → Bool → List Nat → Bool → Bool
  | _, [], _, _, _ => true
  | 0, _ :: _, _, _, _ => false
  | fuel + 1, x :: xs, a, [], b => (!a || x == 0) && within fuel xs (!a) [] b
  | fuel + 1, x :: xs, a, y :: ys, b =>
    (!a || b || x == 0 || y == 0) &&
      if x < y then within fuel xs (!a) ((y - x) :: ys) b
      else if y < x then within fuel ((x - y) :: xs) a ys (!b)
      else within fuel xs (!a) ys (!b)

theorem insideAt_of_within : ∀ {fuel : Nat} {xs : List Nat} {a : Bool} {ys : List Nat} {b : Bool},
    within fuel xs a ys b = true → ∀ n, insideAt xs a n = true → insideAt ys b n = true
  | _, [], _, _, _, _, n, hn => by simp [insideAt] at hn
  | fuel + 1, x :: xs, a, [], b, h, n, hn => by
      rw [within, Bool.and_eq_true] at h
      have ih := insideAt_of_within h.2
      rw [insideAt] at hn
      split at hn
      · next hlt =>
          have hx : x ≠ 0 := by omega
          simp [hn, hx] at h
      · simpa [insideAt] using ih _ hn
  | fuel + 1, x :: xs, a, y :: ys, b, h, n, hn => by
      rw [within, Bool.and_eq_true] at h
      obtain ⟨hfirst, hrest⟩ := h
      rw [insideAt] at hn ⊢
      have hboth : n < x → n < y → b = true := by
        intro hx hy
        have hx0 : x ≠ 0 := by omega
        have hy0 : y ≠ 0 := by omega
        rw [if_pos hx] at hn
        simpa [hn, hx0, hy0] using hfirst
      split at hrest
      · next hxy =>
          have ih := insideAt_of_within hrest
          split at hn
          · next hx => simpa [show n < y by omega] using hboth hx (by omega)
          · next hx =>
              have h := ih _ hn
              rw [insideAt] at h
              split
              · next hy => simpa [show n - x < y - x by omega] using h
              · next hy =>
                  rw [if_neg (by omega), show n - x - (y - x) = n - y by omega] at h
                  exact h
      · split at hrest
        · next hxy hyx =>
            have ih := insideAt_of_within hrest
            split
            · next hy => exact hboth (by omega) hy
            · next hy =>
                refine ih (n - y) ?_
                rw [insideAt]
                split at hn
                · next hx => simpa [show n - y < x - y by omega] using hn
                · next hx =>
                    rw [if_neg (by omega), show n - y - (x - y) = n - x by omega]
                    exact hn
        · next hxy hyx =>
            obtain rfl : x = y := by omega
            have ih := insideAt_of_within hrest
            split
            · next hx => exact hboth hx hx
            · next hx =>
                rw [if_neg hx] at hn
                exact ih _ hn

/-- What the exchanged runs hold, the runs do not. -/
theorem insideAt_eq_false_of_not {runs : List Nat} {inside : Bool} {n : Nat}
    (h : insideAt runs (!inside) n = true) : insideAt runs inside n = false := by
  induction runs generalizing inside n with
  | nil => rfl
  | cons run runs ih =>
      rw [insideAt] at h ⊢
      split at h
      · next hlt =>
          rw [if_pos hlt]
          simpa using h
      · next hlt =>
          rw [if_neg hlt]
          exact ih h

end Text.CodePoints

namespace Text

theorem isLetterOrNumeral_of_isLetter {c : Char} (h : isLetter c = true) :
    isLetterOrNumeral c = true := by
  have hwithin :
      CodePoints.within 2000 letters.runs false lettersAndNumerals.runs false = true := by
    decide +kernel
  exact CodePoints.insideAt_of_within hwithin _ h

theorem isLetter_eq_false_of_isDigit {c : Char} (h : isDigit c = true) : isLetter c = false := by
  have hwithin : CodePoints.within 2000 digits.runs false letters.runs true = true := by
    decide +kernel
  exact CodePoints.insideAt_eq_false_of_not (CodePoints.insideAt_of_within hwithin _ h)

end Text

theorem Token.continuesIdentifier_of_starts {c : Char} (h : startsIdentifier c = true) :
    continuesIdentifier c = true := by
  simp only [startsIdentifier, continuesIdentifier, Bool.or_eq_true] at h ⊢
  exact h.imp_left Text.isLetterOrNumeral_of_isLetter

theorem Token.startsIdentifier_eq_false_of_isDigit {c : Char} (h : Text.isDigit c = true) :
    startsIdentifier c = false := by
  have hline : c ≠ '_' := by
    rintro rfl
    have hnot : Text.isDigit '_' = false := by decide +kernel
    cases hnot.symm.trans h
  simp [startsIdentifier, Text.isLetter_eq_false_of_isDigit h, hline]

end TemplateCompiler
