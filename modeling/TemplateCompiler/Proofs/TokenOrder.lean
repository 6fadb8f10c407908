import TemplateCompiler.Proofs.Letters
import TemplateCompiler.Token.Scanner

/-!
# Tokens stand in the order of their source

A scanner only moves forward, and a token ends where the scanner stands behind it. So each token of
a source ends before the next one starts, whatever the delimiters are: also an empty delimiter or an
empty comment moves nothing back. An identifier or keyword is not empty, so no two of them start at
one place.
-/

namespace TemplateCompiler

/-! ## Offsets -/

namespace Position

@[simp]
theorem next_offset (p : Position) (c : Char) : (p.next c).offset = p.offset + 1 := by
  unfold next
  split <;> rfl

@[simp]
theorem advance_offset (p : Position) (text : List Char) :
    (p.advance text).offset = p.offset + text.length := by
  unfold advance
  induction text generalizing p with
  | nil => rfl
  | cons c text ih =>
      rw [List.foldl_cons, ih, next_offset, List.length_cons]
      omega

end Position

/-! ## One step -/

/-- Tokens that are read as a word. -/
def TokenKind.isWord : TokenKind → Bool
  | .identifier | .keyword => true
  | _ => false

namespace Scanner

/-- The step reads a token that lies ahead of `s`, and ends behind it. -/
def Advances (s : Scanner) : ScanStep → Prop
  | .token t s' =>
    s.position.offset ≤ t.span.start.offset ∧ t.span.start.offset ≤ t.span.stop.offset ∧
      t.span.stop = s'.position ∧
      (t.kind.isWord → t.span.start.offset < t.span.stop.offset)
  | .fault _ | .finished => True

/-- Every token is emitted where the scanner stands. -/
theorem emit_advances {s : Scanner} {kind : TokenKind} {value raw : List Char} {mode : ScanMode}
    (h : kind.isWord → raw ≠ []) : s.Advances (s.emit kind value raw mode) := by
  have hoffset : (s.position.advance raw).offset = s.position.offset + raw.length :=
    Position.advance_offset _ _
  refine ⟨Nat.le_refl _, ?_, rfl, fun hkind => ?_⟩
  · simp only [hoffset]
    omega
  · have hlength := List.length_pos_iff.mpr (h hkind)
    simp only [hoffset]
    omega

theorem Advances.of_skipBlanks {s : Scanner} {step : ScanStep} (h : s.skipBlanks.Advances step) :
    s.Advances step := by
  cases step with
  | token t s' =>
      obtain ⟨hstart, hrest⟩ := h
      refine ⟨Nat.le_trans ?_ hstart, hrest⟩
      simp [skipBlanks]
  | fault | finished => trivial

theorem openerKind_isWord {d : Delimiters} {opener : String} :
    (openerKind d opener).isWord = false := by
  unfold openerKind
  split
  · rfl
  · split <;> rfl

theorem nextText_advances (s : Scanner) : s.Advances s.nextText := by
  unfold nextText
  split
  · exact emit_advances nofun
  · split
    · next opener kind hopener =>
        refine emit_advances fun hword => ?_
        obtain ⟨_, -, hpair⟩ := Option.map_eq_some_iff.mp hopener
        obtain ⟨-, rfl⟩ := Prod.mk.inj hpair
        rw [openerKind_isWord] at hword
        cases hword
    · dsimp only
      split
      · trivial
      · exact emit_advances nofun

theorem nextComment_advances (s : Scanner) (opened : Position) :
    s.Advances (s.nextComment opened) := by
  unfold nextComment
  split
  · trivial
  · exact emit_advances nofun

theorem nextWord_advances {s : Scanner} {c : Char} {rest : List Char} (hs : s.rest = c :: rest)
    (hc : Token.startsIdentifier c = true) : s.Advances s.nextWord := by
  refine emit_advances fun _ => ?_
  rw [hs, List.takeWhile_cons_of_pos (Token.continuesIdentifier_of_starts hc)]
  nofun

theorem nextString_advances (s : Scanner) (quote : Char) (body : List Char) :
    s.Advances (s.nextString quote body) := by
  unfold nextString
  split
  · trivial
  · exact emit_advances nofun

theorem punctuation_isWord {c : Char} {kind : TokenKind}
    (h : Token.punctuation? c = some kind) : kind.isWord = false := by
  unfold Token.punctuation? at h
  split at h <;> cases h <;> rfl

theorem nextSign_advances (s : Scanner) (c : Char) : s.Advances (s.nextSign c) := by
  unfold nextSign
  split
  · exact emit_advances nofun
  · split
    · next kind hkind =>
        exact emit_advances fun hword => absurd (punctuation_isWord hkind) (by simp [hword])
    · trivial

theorem closer_isWord {d : Delimiters} {text : List Char} {closer : String}
    {kind : TokenKind} (h : closer? d text = some (closer, kind)) : kind.isWord = false := by
  unfold closer? at h
  split at h
  · cases h
    rfl
  · split at h <;> cases h
    rfl

theorem markedCloser_isWord {d : Delimiters} {text marker : List Char} {closer : String}
    {kind : TokenKind} (h : markedCloser? d text = some (marker, closer, kind)) :
    kind.isWord = false := by
  have hmapped : ∀ {rest before : List Char},
      (closer? d rest).map (before, ·) = some (marker, closer, kind) → kind.isWord = false := by
    intro rest before hrest
    obtain ⟨_, hcloser, hpair⟩ := Option.map_eq_some_iff.mp hrest
    obtain ⟨-, rfl⟩ := Prod.mk.inj hpair
    exact closer_isWord hcloser
  unfold markedCloser? at h
  rcases Option.or_eq_some_iff.mp h with hmarked | ⟨-, hplain⟩
  · split at hmarked
    · split at hmarked
      · exact hmapped hmarked
      · cases hmarked
    · cases hmarked
  · exact hmapped hplain

theorem nextInTag_advances (s : Scanner) : s.Advances s.nextInTag := by
  unfold nextInTag
  split
  · exact emit_advances nofun
  · next c rest hs =>
      split
      · next marker closer kind hcloser =>
          exact emit_advances fun hword => absurd (markedCloser_isWord hcloser) (by simp [hword])
      · split
        · trivial
        · split
          · next hc => exact nextWord_advances hs hc
          · split
            · exact emit_advances nofun
            · split
              · exact nextString_advances s c rest
              · exact nextSign_advances s c

/-- What one step of a scanner preserves, in every mode. -/
theorem next_advances (s : Scanner) : s.Advances s.next := by
  unfold next
  split
  · exact nextText_advances s
  · exact (nextInTag_advances s.skipBlanks).of_skipBlanks
  · exact nextComment_advances s _
  · exact emit_advances nofun
  · trivial

end Scanner

/-! ## Whole sequences -/

/-- Tokens as they stand in a source, one after the other. -/
structure Token.InOrder (ts : List Token) : Prop where
  apart : ts.Pairwise fun t u => t.span.stop.offset ≤ u.span.start.offset
  forward : ∀ t ∈ ts, t.span.start.offset ≤ t.span.stop.offset
  word : ∀ t ∈ ts, t.kind.isWord → t.span.start.offset < t.span.stop.offset

/-- Where the names among the tokens start. -/
def Token.nameStarts (ts : List Token) : List Position :=
  (ts.filter (·.kind = .identifier)).map (·.span.start)

namespace Token.InOrder

theorem nil : Token.InOrder [] where
  apart := .nil
  forward := List.forall_mem_nil _
  word := List.forall_mem_nil _

theorem sublist {ts us : List Token} (h : Token.InOrder us) (hs : List.Sublist ts us) :
    Token.InOrder ts where
  apart := h.apart.sublist hs
  forward t ht := h.forward t (hs.subset ht)
  word t ht := h.word t (hs.subset ht)

theorem nameStarts_increasing {ts : List Token} (h : Token.InOrder ts) :
    (Token.nameStarts ts).Pairwise fun p q => p.offset < q.offset := by
  have hnames := h.sublist (List.filter_sublist (p := fun t => decide (t.kind = .identifier)))
  have hkind : ∀ t ∈ ts.filter (·.kind = .identifier), t.kind = .identifier := by
    intro t ht
    simpa using (List.mem_filter.mp ht).2
  refine List.pairwise_map.mpr (hnames.apart.imp_of_mem fun {t u} ht _ hle => ?_)
  have hlt := hnames.word t ht (by simp [hkind t ht, TokenKind.isWord])
  omega

theorem nameStarts_nodup {ts : List Token} (h : Token.InOrder ts) :
    (Token.nameStarts ts).Nodup :=
  h.nameStarts_increasing.imp fun hlt heq => Nat.ne_of_lt hlt (congrArg Position.offset heq)

end Token.InOrder

/-- A run moves from token to token, so all of them lie ahead of where it starts. -/
theorem Scanner.run_inOrder (fuel : Nat) (s : Scanner) :
    Token.InOrder (run fuel s).1 ∧
      ∀ t ∈ (run fuel s).1, s.position.offset ≤ t.span.start.offset := by
  induction fuel generalizing s with
  | zero => exact ⟨.nil, List.forall_mem_nil _⟩
  | succ fuel ih =>
      have hstep := next_advances s
      rw [run]
      split
      · exact ⟨.nil, List.forall_mem_nil _⟩
      · exact ⟨.nil, List.forall_mem_nil _⟩
      · next t s' hnext =>
          rw [hnext] at hstep
          obtain ⟨hstart, hforward, hstop, hname⟩ := hstep
          obtain ⟨hrest, hahead⟩ := ih s'
          refine ⟨⟨?_, ?_, ?_⟩, ?_⟩
          · refine List.pairwise_cons.mpr ⟨fun u hu => ?_, hrest.apart⟩
            rw [hstop]
            exact hahead u hu
          · exact List.forall_mem_cons.mpr ⟨hforward, hrest.forward⟩
          · exact List.forall_mem_cons.mpr ⟨hname, hrest.word⟩
          · refine List.forall_mem_cons.mpr ⟨hstart, fun u hu => ?_⟩
            have hnext := hahead u hu
            rw [← hstop] at hnext
            omega

/-- The tokens of a source stand in order, up to the fault that ended them if there is one. -/
theorem tokenize_inOrder (source unit : String) (delimiters : Delimiters) :
    Token.InOrder (tokenize source unit delimiters).1 :=
  (Scanner.run_inOrder _ _).1

end TemplateCompiler
