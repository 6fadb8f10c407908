import TemplateCompiler.Proofs.ScanSteps
import TemplateCompiler.Proofs.Spelling

/-!
# What the values of tokens hold

The scanner makes sure of what nobody looks at again: the value of an identifier is a name, the
value of a number has the form of one, and no string holds a NUL. One step does, whatever the
delimiters are, so a whole run does.
-/

namespace TemplateCompiler

/-- What is sure of the value of a token. -/
structure Token.Sound (t : Token) : Prop where
  name : t.kind = .identifier → IsName t.value
  number : t.kind = .number → DigitText t.value.toList
  string : t.kind = .string → '\x00' ∉ t.value.toList

/-- Of other tokens nothing is said. -/
theorem Token.Sound.of_ne {t : Token} (hname : t.kind ≠ .identifier) (hnumber : t.kind ≠ .number)
    (hstring : t.kind ≠ .string) : t.Sound :=
  ⟨fun h => absurd h hname, fun h => absurd h hnumber, fun h => absurd h hstring⟩

namespace Scanner

/-- The text of a number, without the low lines in it. -/
theorem numberText_digits {c : Char} {rest : List Char} (hc : Text.isDigit c = true) :
    DigitText ((numberText (c :: rest)).filter (· ≠ '_')) := by
  have hdigits : ∀ text : List Char, ∀ d ∈ (text.takeWhile continuesNumber).filter (· ≠ '_'),
      Text.isDigit d = true := by
    intro text d hd
    obtain ⟨hd, hline⟩ := List.mem_filter.mp hd
    have hcontinues := List.all_eq_true.mp List.all_takeWhile d hd
    simp only [continuesNumber, Bool.or_eq_true, decide_eq_true_eq] at hcontinues hline
    exact hcontinues.resolve_right hline
  have hstarts : ∀ (c : Char) (rest : List Char), Text.isDigit c = true →
      ((c :: rest).takeWhile continuesNumber).filter (· ≠ '_') ≠ [] := by
    intro c rest hc
    have hline : c ≠ '_' := by
      rintro rfl
      have hnot : Text.isDigit '_' = false := by decide +kernel
      cases hnot.symm.trans hc
    rw [List.takeWhile_cons_of_pos (by simp [continuesNumber, hc]),
      List.filter_cons_of_pos (by simpa using hline)]
    exact List.cons_ne_nil _ _
  have hwhole := DigitText.whole (hstarts c rest hc) (hdigits (c :: rest))
  unfold numberText
  dsimp only
  split
  · next d after _ =>
      split
      · next hd =>
          rw [List.filter_append, List.filter_cons_of_pos (by decide)]
          refine .pointed (hstarts c rest hc) (hstarts d after hd) ?_
          intro e he
          rcases List.mem_append.mp he with he | he
          · exact hdigits _ e he
          · exact hdigits _ e he
      · exact hwhole
  · exact hwhole

/-- A word that is no keyword is a name. -/
theorem isName_of_word {c : Char} {rest : List Char} (hc : Token.startsIdentifier c = true)
    (hword : String.ofList ((c :: rest).takeWhile Token.continuesIdentifier) ∉ Token.keywords) :
    IsName (String.ofList ((c :: rest).takeWhile Token.continuesIdentifier)) := by
  refine ⟨⟨c, rest.takeWhile Token.continuesIdentifier, ?_, hc, ?_⟩, hword⟩
  · rw [String.toList_ofList,
      List.takeWhile_cons_of_pos (Token.continuesIdentifier_of_starts hc)]
  · exact List.all_eq_true.mp List.all_takeWhile

/-- No NUL is decoded. -/
theorem stringBody_noNul {opened place : Position} {quote : Char}
    {decoded text value rest : List Char}
    (h : stringBody opened quote place decoded text = .ok (value, rest))
    (hdecoded : '\x00' ∉ decoded) : '\x00' ∉ value := by
  have hescaped : ∀ {c d : Char}, escaped? c = some d → '\x00' ≠ d := by
    intro c d hd
    unfold escaped? at hd
    split at hd <;> cases hd <;> decide
  fun_induction stringBody opened quote place decoded text with
  | case2 place decoded after =>
      obtain ⟨rfl, -⟩ := Prod.mk.inj (Except.ok.inj h)
      simpa using hdecoded
  | case4 place decoded e after d hd hquote ih =>
      exact ih h (List.not_mem_cons_of_ne_of_not_mem (hescaped hd) hdecoded)
  | case7 place decoded c after hquote hslash hnul ih =>
      exact ih h (List.not_mem_cons_of_ne_of_not_mem (Ne.symm hnul) hdecoded)
  | _ => cases h

section

variable {s s' : Scanner} {t : Token}

theorem nextText_sound (h : s.nextText = .token t s') : t.Sound := by
  unfold nextText at h
  split at h
  · cases h
    exact .of_ne nofun nofun nofun
  · split at h
    · next opener kind hopener =>
        cases h
        obtain ⟨-, -, rfl⟩ := opener?_eq_some hopener
        rcases openerKind_cases s.delimiters opener with hkind | hkind | hkind
        all_goals refine .of_ne ?_ ?_ ?_ <;> dsimp only <;> rw [hkind] <;> nofun
    · dsimp only at h
      split at h
      · cases h
      · cases h
        exact .of_ne nofun nofun nofun

theorem nextInTag_sound (h : s.nextInTag = .token t s') : t.Sound := by
  unfold nextInTag at h
  split at h
  · cases h
    exact .of_ne nofun nofun nofun
  · next c rest hrest =>
      split at h
      · next marker closer kind hcloser =>
          cases h
          obtain ⟨-, -, rfl | rfl⟩ := markedCloser?_eq_some hcloser
          all_goals exact .of_ne nofun nofun nofun
      · split at h
        · cases h
        · split at h
          · next hc =>
              cases h
              rw [hrest]
              refine ⟨fun hkind => isName_of_word hc ?_, ?_, ?_⟩
              · split at hkind
                · cases hkind
                · next hword => simpa using hword
              · split <;> nofun
              · split <;> nofun
          · split at h
            · next hc =>
                cases h
                refine ⟨nofun, fun _ => ?_, nofun⟩
                rw [String.toList_ofList, hrest]
                exact numberText_digits hc
            · split at h
              · unfold nextString at h
                split at h
                · cases h
                · next value rest' hbody =>
                    cases h
                    refine ⟨nofun, nofun, fun _ => ?_⟩
                    rw [String.toList_ofList]
                    exact stringBody_noNul hbody (List.not_mem_nil)
              · unfold nextSign at h
                split at h
                · cases h
                  exact .of_ne nofun nofun nofun
                · split at h
                  · next kind hkind =>
                      cases h
                      unfold Token.punctuation? at hkind
                      split at hkind <;> cases hkind <;> exact .of_ne nofun nofun nofun
                  · cases h

theorem next_sound (h : s.next = .token t s') : t.Sound := by
  unfold next at h
  split at h
  · exact nextText_sound h
  · exact nextInTag_sound h
  · unfold nextComment at h
    split at h
    · cases h
    · cases h
      exact .of_ne nofun nofun nofun
  · cases h
    exact .of_ne nofun nofun nofun
  · cases h

end

theorem run_sound (fuel : Nat) (s : Scanner) : ∀ t ∈ (run fuel s).1, t.Sound := by
  induction fuel generalizing s with
  | zero => exact List.forall_mem_nil _
  | succ fuel ih =>
      rw [run]
      split
      · exact List.forall_mem_nil _
      · exact List.forall_mem_nil _
      · next t s' hnext => exact List.forall_mem_cons.mpr ⟨next_sound hnext, ih s'⟩

end Scanner

theorem tokenize_sound (source unit : String) (delimiters : Delimiters) :
    ∀ t ∈ (tokenize source unit delimiters).1, t.Sound :=
  Scanner.run_sound _ _

end TemplateCompiler
