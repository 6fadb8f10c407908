import TemplateCompiler.Proofs.KeptTexts
import TemplateCompiler.Proofs.Lookahead
import TemplateCompiler.Proofs.Renaming

/-!
# Stretches of tokens

`Scanner.Reads` says that a scanner comes to another one by reading a stretch of tokens. A run is
such a stretch and what comes of the scanner behind it (`Reads.run`), and no run with enough fuel
depends on how much it has (`run_of_weight_le`). So a run can be cut at any token and be put
together again.

A stretch up to a closing delimiter is read in front of every text (`Reads.before`). The induction
goes from the last token back: what stands between a token and the end of the stretch is what the
step at that token may look at.
-/

namespace TemplateCompiler

/-- Only the body of a comment leads to its end. -/
theorem ScanMode.Turns.comment_of_commentEnd {mode : ScanMode} {kind : TokenKind}
    {marker : List Char} (h : mode.Turns kind (.commentEnd marker)) : kind = .comment := by
  cases h
  rfl

namespace Scanner

/-- By reading `ts` one scanner comes to another. -/
inductive Reads : Scanner → List Token → Scanner → Prop
  | done {s} : Reads s [] s
  | step {s s' s'' t ts} (hnext : s.next = .token t s') (h : Reads s' ts s'') :
      Reads s (t :: ts) s''

variable {s s' s'' : Scanner} {t : Token} {ts us : List Token}

namespace Reads

theorem single (h : s.next = .token t s') : s.Reads [t] s' :=
  .step h .done

theorem append (h : s.Reads ts s') (h' : s'.Reads us s'') : s.Reads (ts ++ us) s'' := by
  induction h with
  | done => exact h'
  | step hnext _ ih => exact .step hnext (ih h')

theorem of_cons (h : s.Reads (t :: ts) s'') : ∃ s', s.next = .token t s' ∧ s'.Reads ts s'' := by
  cases h with
  | step hnext h => exact ⟨_, hnext, h⟩

theorem emits (h : s.Reads (t :: ts) s'') (hd : s.delimiters.Solid) (hs : s.Consistent) :
    ∃ s' gap, s.next = .token t s' ∧ s.Emits gap t s' ∧ s'.Reads ts s'' := by
  obtain ⟨s', hnext, h⟩ := of_cons h
  have hsteps := next_steps hd hs
  rw [hnext] at hsteps
  obtain ⟨gap, he⟩ := hsteps
  exact ⟨s', gap, hnext, he, h⟩

theorem split (h : s.Reads (ts ++ us) s'') : ∃ s', s.Reads ts s' ∧ s'.Reads us s'' := by
  induction ts generalizing s with
  | nil => exact ⟨s, .done, h⟩
  | cons t ts ih =>
      obtain ⟨s₁, hnext, h⟩ := of_cons h
      obtain ⟨s', hts, hus⟩ := ih h
      exact ⟨s', .step hnext hts, hus⟩

/-! ## Stretches of runs -/

/-- A run goes through the stretch and on from behind it. -/
theorem run (h : s.Reads ts s') (fuel : Nat) :
    s.run (ts.length + fuel) = (ts ++ (s'.run fuel).1, (s'.run fuel).2) := by
  induction h with
  | done => rw [List.length_nil, Nat.zero_add, List.nil_append]
  | @step s s₁ s' t ts hnext _ ih =>
      rw [List.length_cons, Nat.add_right_comm, Scanner.run, hnext]
      dsimp only
      rw [ih]
      rfl

/-- What a run begins with is a stretch. -/
theorem of_run {fuel : Nat} (h : (s.run fuel).1 = ts ++ us) :
    ∃ s' more, s.Reads ts s' ∧ fuel = ts.length + more := by
  induction ts generalizing s fuel with
  | nil => exact ⟨s, fuel, .done, (Nat.zero_add fuel).symm⟩
  | cons t ts ih =>
      cases fuel with
      | zero => cases h
      | succ fuel =>
          rw [Scanner.run] at h
          split at h
          · cases h
          · cases h
          · next t' s₁ hnext =>
              obtain ⟨rfl, hrest⟩ := List.cons.inj h
              obtain ⟨s', more, hreads, rfl⟩ := ih hrest
              exact ⟨s', more, .step hnext hreads, by rw [List.length_cons, Nat.add_right_comm]⟩

end Reads

/-! ## What a stretch leaves as it was -/

theorem next_unit (h : s.next = .token t s') : s'.unit = s.unit := by
  have hsame := next_inUnit s.unit s
  rw [show s.inUnit s.unit = s from rfl, h] at hsame
  rw [(ScanStep.token.inj hsame).2]
  rfl

/-- Between the two scanners lie a text and so many tokens. -/
structure Reached (s s' : Scanner) (count : Nat) : Prop where
  delimiters : s'.delimiters = s.delimiters
  unit : s'.unit = s.unit
  consistent : s'.Consistent
  weight : s'.weight + count ≤ s.weight
  place : ∃ text, s.rest = text ++ s'.rest ∧ s'.position = s.position.advance text

theorem Reads.reached (h : s.Reads ts s') (hd : s.delimiters.Solid) (hs : s.Consistent) :
    s.Reached s' ts.length := by
  induction h with
  | done => exact ⟨rfl, rfl, hs, Nat.le_refl _, [], rfl, rfl⟩
  | @step s s₁ s' t ts hnext _ ih =>
      have hsteps := next_steps hd hs
      rw [hnext] at hsteps
      obtain ⟨gap, he⟩ := hsteps
      obtain ⟨hd', hunit, hs', hweight, text, htext, hplace⟩ :=
        ih (he.delimiters ▸ hd) he.consistent
      have hlt := he.weight_lt
      refine ⟨hd'.trans he.delimiters, hunit.trans (next_unit hnext), hs', ?_,
        gap ++ t.raw.toList ++ text, ?_, ?_⟩
      · rw [List.length_cons]
        omega
      · rw [he.ahead, htext]
        simp only [List.append_assoc]
      · rw [hplace, he.place, ← Position.advance_append]

theorem finished_of_weight (hd : s.delimiters.Solid) (hs : s.Consistent) (h : s.weight = 0) :
    s.mode = .finished := by
  cases hmode : s.mode with
  | finished => rfl
  | commentEnd marker =>
      -- the end of the comment is still ahead, so there is text left
      have hahead := (hs marker hmode).length_le
      have hne := hd s.delimiters.commentEnd (by simp [Delimiters.toList])
      have hlength := List.length_pos_iff.mpr hne
      unfold weight at h
      rw [hmode] at h
      rw [List.length_append] at hahead
      dsimp only at h
      omega
  | _ =>
      unfold weight at h
      rw [hmode] at h
      cases h

/-- With enough fuel, a run does not depend on it. -/
theorem run_of_weight_le {fuel fuel' : Nat} (hd : s.delimiters.Solid) (hs : s.Consistent)
    (h : s.weight ≤ fuel) (h' : s.weight ≤ fuel') : s.run fuel = s.run fuel' := by
  induction fuel generalizing s fuel' with
  | zero =>
      have hfinished := finished_of_weight hd hs (Nat.le_zero.mp h)
      rw [run_finished hfinished, run_finished hfinished]
  | succ fuel ih =>
      cases fuel' with
      | zero =>
          have hfinished := finished_of_weight hd hs (Nat.le_zero.mp h')
          rw [run_finished hfinished, run_finished hfinished]
      | succ fuel' =>
          have hsteps := next_steps hd hs
          rw [Scanner.run, Scanner.run]
          generalize s.next = step at hsteps
          cases step with
          | finished => rfl
          | fault f => rfl
          | token t s₁ =>
              obtain ⟨gap, he⟩ := hsteps
              have hlt := he.weight_lt
              have hsame : s₁.run fuel = s₁.run fuel' :=
                ih (he.delimiters ▸ hd) he.consistent (by omega) (by omega)
              dsimp only
              rw [hsame]

/-- A whole source is read as a stretch and then with as much fuel as is needed. -/
theorem Reads.tokenize {source unit : String} {delimiters : Delimiters}
    (hd : delimiters.check = .ok ()) (h : (ofSource source unit delimiters).Reads ts s') :
    tokenize source unit delimiters = (ts ++ (s'.run s'.weight).1, (s'.run s'.weight).2) := by
  have hsolid := Delimiters.solid_of_check hd
  have hs : (ofSource source unit delimiters).Consistent := nofun
  have hreached := h.reached hsolid hs
  have hweight := hreached.weight
  have hall : (ofSource source unit delimiters).weight = 2 * source.toList.length + 1 := rfl
  obtain ⟨more, hmore⟩ : ∃ more, fuelFor source.toList = ts.length + more :=
    ⟨fuelFor source.toList - ts.length, by unfold fuelFor; omega⟩
  have hleft : s'.weight ≤ more := by
    unfold fuelFor at hmore
    omega
  have hsolid' : s'.delimiters.Solid := hreached.delimiters ▸ hsolid
  rw [TemplateCompiler.tokenize, hmore, h.run,
    run_of_weight_le hsolid' hreached.consistent hleft (Nat.le_refl _)]

/-- Where the tokens of a source can be cut. -/
theorem reads_of_tokenize {source unit : String} {delimiters : Delimiters}
    (h : (TemplateCompiler.tokenize source unit delimiters).1 = ts ++ us) :
    ∃ s', (ofSource source unit delimiters).Reads ts s' := by
  obtain ⟨s', _, hreads, -⟩ := Reads.of_run h
  exact ⟨s', hreads⟩

/-! ## In front of another text -/

theorem Reads.not_finished (h : s.Reads ts s') (hts : ts ≠ []) : s.mode ≠ .finished := by
  intro hfinished
  cases h with
  | done => exact hts rfl
  | step hnext _ =>
      rw [next, hfinished] at hnext
      cases hnext

/-- A stretch up to a closing delimiter is read in front of every text. -/
theorem Reads.before (h : s.Reads ts s') (hd : s.delimiters = .standard) (hs : s.Consistent)
    (hclose : ∀ t ∈ ts.getLast?, t.kind.isCloser) :
    ∃ text, s.rest = text ++ s'.rest ∧
      (ts ≠ [] → 2 ≤ text.length ∧
        ∀ marker, s.mode = .commentEnd marker → marker.length + 2 ≤ text.length) ∧
      ∀ after, (s.before (text ++ after)).Reads ts (s'.before after) := by
  have hsolid : Delimiters.standard.Solid := Delimiters.solid_of_check Delimiters.check_standard
  induction h with
  | done => exact ⟨[], rfl, fun hts => absurd rfl hts, fun _ => .done⟩
  | @step s s₁ s' t ts hnext hrest ih =>
      have hsteps := next_steps (hd ▸ hsolid) hs
      rw [hnext] at hsteps
      obtain ⟨gap, he⟩ := hsteps
      have hlast : ts = [] → t.kind.isCloser := by
        rintro rfl
        exact hclose t rfl
      obtain ⟨text, htext, hlong, hreads⟩ := ih (he.delimiters.trans hd) he.consistent
        fun u hu => hclose u (by
          cases ts with
          | nil => cases hu
          | cons v ts => exact hu)
      have heof : t.kind ≠ .eof := by
        intro heof
        have hturns := he.turns
        rw [heof] at hturns
        by_cases hts : ts = []
        · have hcloser := hlast hts
          rw [heof] at hcloser
          cases hcloser
        · exact hrest.not_finished hts hturns.finished_of_eof
      obtain ⟨gap', hgap, hbefore⟩ := next_before hd hs hnext htext heof
        (or_iff_not_imp_left.mpr fun hopen => (hlong fun hts => hopen (hlast hts)).1)
        fun marker hmode => (hlong fun hts => by
          have hturns := he.turns
          rw [hmode] at hturns
          have hcloser := hlast hts
          rw [hturns.comment_of_commentEnd] at hcloser
          cases hcloser).2 marker hmode
      refine ⟨gap' ++ (t.raw.toList ++ text), ?_, fun _ => ⟨?_, fun marker hmode => ?_⟩,
        fun after => ?_⟩
      · simpa using hgap
      · simp only [List.length_append]
        by_cases hts : ts = []
        · have htwo := length_of_closer hd he.turns hnext (hlast hts)
          omega
        · have htwo := (hlong hts).1
          omega
      · have hraw := hnext
        rw [next_commentEnd hmode] at hraw
        have htwo : s.delimiters.commentEnd.toList.length = 2 := by
          rw [hd]
          rfl
        rw [raw_of_emit hraw]
        simp only [List.length_append]
        omega
      · have hnext' := hbefore after
        rw [← List.append_assoc, ← List.append_assoc] at hnext'
        exact .step (by simpa using hnext') (hreads after)

end Scanner

end TemplateCompiler
