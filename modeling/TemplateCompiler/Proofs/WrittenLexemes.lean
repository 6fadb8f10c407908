import TemplateCompiler.Proofs.ScanSteps
import TemplateCompiler.Proofs.Spelling

/-!
# Lexemes that are written are scanned

A lexeme of a tag is written as its value, save that a string stands between quotes of either kind
and escapes its own. In front of a text that no lexeme goes on with (`Apart`), such as one that
starts with a space, it is read back, `Scanner.scans_written`.

Signs of several meanings meet here: a percent sign, a brace or a marker may end a tag, and a point
may go on with a number. What tells them apart is what stands behind them. `Scans` says what is read
from a piece of text in some mode, up to its end or to a fault, and there is one rule for each thing
that the text may start with. Nothing is said about places, so that the rules compose from the end
of the text to its start.
-/

namespace TemplateCompiler

/-! ## Ways of writing -/

/-- In a string its quote and backslashes are escaped. -/
def escapeIn (quote c : Char) : List Char :=
  if c = quote ∨ c = '\\' then ['\\', c] else [c]

/-- What may stand between the delimiters of a tag, and how it is written there. -/
inductive Lexeme.Written : Lexeme → List Char → Prop
  | name {name : String} (h : IsName name) : Written (.identifier, name) name.toList
  | keyword {word : String} (h : word ∈ Token.keywords) : Written (.keyword, word) word.toList
  | operator {sign : String} (h : sign ∈ Token.operators) : Written (.operator, sign) sign.toList
  | number {text : List Char} (h : DigitText text) : Written (.number, String.ofList text) text
  | punctuation {c : Char} {kind : TokenKind} (h : Token.punctuation? c = some kind) :
      Written (kind, String.ofList [c]) [c]
  | string {quote : Char} {value : String} (hquote : quote = '"' ∨ quote = '\'')
      (hnul : '\x00' ∉ value.toList) :
      Written (.string, value) (quote :: (value.toList.flatMap (escapeIn quote) ++ [quote]))

namespace Scanner

/-- With that text ahead, tokens of these lexemes are read up to the end or up to a fault, wherever
the text stands. -/
def Scans (mode : ScanMode) (text : List Char) (ls : List Lexeme)
    (problem : Option LexicalProblem) : Prop :=
  ∀ s : Scanner, s.delimiters = .standard → s.mode = mode → s.rest = text →
    ∃ (ts : List Token) (fault : Option LexicalFault), ts.map Token.lexeme = ls ∧
      fault.map (·.problem) = problem ∧ ts.length ≤ text.length + 1 ∧
      ∀ fuel, ts.length < fuel → s.run fuel = (ts, fault)

/-- A token that is read from `s`, or from behind the blanks that `s` skips. -/
theorem run_emit {s s₀ : Scanner} {kind : TokenKind} {value raw : List Char} {mode : ScanMode}
    (rest : List Char) (hnext : s.next = s₀.emit kind value raw mode)
    (hrest : s₀.rest = raw ++ rest) :
    ∃ (t : Token) (s' : Scanner), t.lexeme = (kind, String.ofList value) ∧
      s'.delimiters = s₀.delimiters ∧ s'.mode = mode ∧ s'.rest = rest ∧
      ∀ fuel, s.run (fuel + 1) = (t :: (s'.run fuel).1, (s'.run fuel).2) := by
  obtain ⟨t, s', hstep, ht, hd, hmode, hrest'⟩ : ∃ (t : Token) (s' : Scanner),
      s₀.emit kind value raw mode = .token t s' ∧ t.lexeme = (kind, String.ofList value) ∧
        s'.delimiters = s₀.delimiters ∧ s'.mode = mode ∧ s'.rest = s₀.rest.drop raw.length :=
    ⟨_, _, rfl, rfl, rfl, rfl, rfl⟩
  refine ⟨t, s', ht, hd, hmode, by rw [hrest', hrest, List.drop_left], fun fuel => ?_⟩
  rw [run, hnext, hstep]

/-- At the end of the text, outside of a tag. -/
theorem run_end {s : Scanner} (hmode : s.mode = .text) (hrest : s.rest = []) :
    ∃ t : Token, t.lexeme = (.eof, "") ∧ ∀ fuel, s.run (fuel + 1) = ([t], none) := by
  have hnext : s.next = s.emit .eof [] [] .finished := by
    rw [next, hmode]
    dsimp only
    rw [nextText, hrest]
    rfl
  obtain ⟨t, s', ht, -, hfinished, -, hrun⟩ := run_emit [] hnext hrest
  exact ⟨t, ht, fun fuel => by rw [hrun, run_finished hfinished]⟩

theorem scans_end : Scans .text [] [(.eof, "")] none := by
  intro s _ hmode hrest
  obtain ⟨t, ht, hrun⟩ := run_end hmode hrest
  refine ⟨[t], none, by simp [ht], rfl, Nat.le_refl _, fun fuel hfuel => ?_⟩
  obtain ⟨fuel, rfl⟩ := Nat.exists_eq_add_of_lt hfuel
  exact hrun _

variable {rest : List Char} {ls : List Lexeme} {problem : Option LexicalProblem}

theorem scans_emit {mode : ScanMode} {text value : List Char} {kind : TokenKind}
    (raw rest : List Char) (hlt : rest.length < text.length)
    (hnext : ∀ s : Scanner, s.delimiters = .standard → s.mode = mode → s.rest = text →
      ∃ (s₀ : Scanner) (mode' : ScanMode), s₀.delimiters = .standard ∧ s₀.rest = raw ++ rest ∧
        s.next = s₀.emit kind value raw mode' ∧ Scans mode' rest ls problem) :
    Scans mode text ((kind, String.ofList value) :: ls) problem := by
  intro s hd hmode hs
  obtain ⟨s₀, mode', hd₀, hrest₀, hemit, h⟩ := hnext s hd hmode hs
  obtain ⟨t, s', ht, hd', hmode', hrest', hrun₀⟩ := run_emit rest hemit hrest₀
  obtain ⟨ts, fault, hts, hfault, hlength, hrun⟩ := h s' (hd'.trans hd₀) hmode' hrest'
  refine ⟨t :: ts, fault, by simp [ht, hts], hfault, by simp; omega, fun fuel hfuel => ?_⟩
  rw [List.length_cons] at hfuel
  obtain ⟨fuel, rfl⟩ := Nat.exists_eq_add_of_le' (Nat.lt_of_le_of_lt (Nat.zero_le _) hfuel)
  rw [hrun₀, hrun fuel (by omega)]

/-! ## In a tag -/

theorem rest_skipBlanks {s : Scanner} {c : Char} {text : List Char} (hs : s.rest = ' ' :: c :: text)
    (hc : isTagBlank c = false) : s.skipBlanks.rest = c :: text := by
  show s.rest.dropWhile isTagBlank = _
  rw [hs, List.dropWhile_cons_of_pos (by decide), List.dropWhile_cons_of_neg (by simp [hc])]

/-- A space in front of a token changes its place alone. -/
theorem Scans.blank {text : List Char} (h : Scans .tag text ls problem) :
    Scans .tag (' ' :: text) ls problem := by
  intro s hd hmode hs
  obtain ⟨s', hd', hmode', hs', hnext⟩ : ∃ s' : Scanner, s'.delimiters = s.delimiters ∧
      s'.mode = .tag ∧ s'.rest = text ∧ s'.next = s.next := by
    refine ⟨{ s with position := s.position.next ' ', rest := text }, rfl, hmode, rfl, ?_⟩
    unfold next
    simp only [hmode]
    unfold skipBlanks
    rw [hs, List.takeWhile_cons_of_pos (by decide), List.dropWhile_cons_of_pos (by decide)]
    rfl
  obtain ⟨ts, fault, hts, hfault, hlength, hrun⟩ := h s' (hd'.trans hd) hmode' hs'
  refine ⟨ts, fault, hts, hfault, by simp; omega, fun fuel hfuel => ?_⟩
  rw [← hrun fuel hfuel]
  cases fuel with
  | zero => rfl
  | succ fuel => rw [run, run, hnext]

/-- A token where no blank stands. -/
theorem scans_inTag {mode : ScanMode} {c : Char} {raw value : List Char} {kind : TokenKind}
    (hc : isTagBlank c = false)
    (hnext : ∀ s : Scanner, s.delimiters = .standard → s.rest = c :: (raw ++ rest) →
      s.nextInTag = s.emit kind value (c :: raw) mode)
    (h : Scans mode rest ls problem) :
    Scans .tag (c :: (raw ++ rest)) ((kind, String.ofList value) :: ls) problem := by
  have hlt : rest.length < (c :: (raw ++ rest)).length := by
    rw [List.length_cons, List.length_append]
    omega
  refine scans_emit (c :: raw) rest hlt fun s hd hmode hs => ?_
  have hskipped : s.skipBlanks.rest = c :: (raw ++ rest) := by
    show s.rest.dropWhile isTagBlank = _
    rw [hs, List.dropWhile_cons_of_neg (by simp [hc])]
  refine ⟨s.skipBlanks, mode, hd, hskipped, ?_, h⟩
  rw [next, hmode]
  exact hnext s.skipBlanks hd hskipped

/-- A fault where no blank stands. -/
theorem scans_fault {c : Char} {text : List Char} {problem : LexicalProblem}
    (hc : isTagBlank c = false)
    (hnext : ∀ s : Scanner, s.delimiters = .standard → s.rest = c :: text →
      ∃ start stop, s.nextInTag = s.fail problem start stop) :
    Scans .tag (c :: text) [] (some problem) := by
  intro s hd hmode hs
  have hskipped : s.skipBlanks.rest = c :: text := by
    show s.rest.dropWhile isTagBlank = _
    rw [hs, List.dropWhile_cons_of_neg (by simp [hc])]
  obtain ⟨start, stop, hfail⟩ := hnext s.skipBlanks hd hskipped
  refine ⟨[], some ⟨problem, ⟨start, stop, s.skipBlanks.unit⟩⟩, rfl, rfl, Nat.zero_le _, ?_⟩
  intro fuel hfuel
  have hstep : s.next = s.skipBlanks.fail problem start stop := by
    rw [next, hmode]
    exact hfail
  cases fuel with
  | zero => cases hfuel
  | succ fuel => rw [run, hstep, fail]

theorem closer?_standard_eq_some {text : List Char} {found : String × TokenKind}
    (h : closer? .standard text = some found) :
    ∃ c more, text = c :: '\x7d' :: more ∧ (c = '%' ∨ c = '\x7d') := by
  unfold closer? at h
  split at h
  · next hblock =>
      obtain ⟨more, rfl⟩ := beginsWith_iff.mp hblock
      exact ⟨'%', more, rfl, .inl rfl⟩
  · split at h
    · next hexpr =>
        obtain ⟨more, rfl⟩ := beginsWith_iff.mp hexpr
        exact ⟨'\x7d', more, rfl, .inr rfl⟩
    · cases h

/-- No closing delimiter starts with a character that is no part of one, or in front of such. -/
theorem markedCloser?_standard_eq_none {c : Char} {text : List Char}
    (h : c ∉ ['%', '\x7d', '-', '~', '+'] ∨ ∀ d ∈ text.head?, d ∉ ['%', '\x7d']) :
    markedCloser? .standard (c :: text) = none := by
  have hplain : closer? .standard (c :: text) = none := by
    rw [Option.eq_none_iff_forall_ne_some]
    intro found hfound
    obtain ⟨c', more, heq, hc'⟩ := closer?_standard_eq_some hfound
    obtain ⟨rfl, rfl⟩ := List.cons.inj heq
    rcases h with h | h
    · rcases hc' with rfl | rfl <;> simp at h
    · simp at h
  have hmarked : Whitespace.isMarker c → closer? .standard text = none := by
    intro hmarker
    rw [Option.eq_none_iff_forall_ne_some]
    intro found hfound
    obtain ⟨c', more, rfl, hc'⟩ := closer?_standard_eq_some hfound
    rcases h with h | h
    · simp only [Whitespace.isMarker, Bool.or_eq_true, decide_eq_true_eq] at hmarker
      rcases hmarker with (rfl | rfl) | rfl <;> simp at h
    · rcases hc' with rfl | rfl <;> simp at h
  unfold markedCloser?
  dsimp only
  rw [hplain]
  split
  · next hmarker => rw [hmarked hmarker]; rfl
  · rfl

/-! ## Words and numbers -/

/-- A letter or a low line stands for nothing else in a tag. -/
theorem plain_of_startsIdentifier {c : Char} (h : Token.startsIdentifier c = true) :
    isTagBlank c = false ∧ c ∉ ['%', '\x7d', '-', '~', '+'] ∧ c ≠ '\x00' := by
  have hnone : ([' ', '\t', '\r', '\n', '%', '\x7d', '-', '~', '+', '\x00'].all fun d =>
      Token.startsIdentifier d = false) = true := by
    decide +kernel
  have hne : ∀ d ∈ [' ', '\t', '\r', '\n', '%', '\x7d', '-', '~', '+', '\x00'], c ≠ d := by
    rintro d hd rfl
    have hd := of_decide_eq_true (List.all_eq_true.mp hnone c hd)
    rw [hd] at h
    cases h
  simp only [List.forall_mem_cons, List.not_mem_nil, false_implies, implies_true, and_true] at hne
  simp [isTagBlank, hne]

theorem nextInTag_eq {s : Scanner} {c : Char} {text : List Char} (hd : s.delimiters = .standard)
    (hs : s.rest = c :: text)
    (h : c ∉ ['%', '\x7d', '-', '~', '+'] ∨ ∀ d ∈ text.head?, d ∉ ['%', '\x7d'])
    (hnul : c ≠ '\x00') :
    s.nextInTag = if Token.startsIdentifier c then s.nextWord
      else if Text.isDigit c then s.nextNumber
      else if c = '"' || c = '\'' then s.nextString c text else s.nextSign c := by
  rw [nextInTag, hs]
  dsimp only
  rw [hd, markedCloser?_standard_eq_none h]
  dsimp only
  rw [if_neg hnul]

theorem scans_word {word : String} {kind : TokenKind} {c : Char} {more : List Char}
    (hword : word.toList = c :: more) (hstarts : Token.startsIdentifier c = true)
    (hcontinues : ∀ d ∈ more, Token.continuesIdentifier d = true)
    (hkind : (if Token.keywords.contains word then TokenKind.keyword else .identifier) = kind)
    (hrest : ∀ d ∈ rest.head?, Token.continuesIdentifier d = false)
    (h : Scans .tag rest ls problem) :
    Scans .tag (word.toList ++ rest) ((kind, word) :: ls) problem := by
  obtain ⟨hblank, hplain, hnul⟩ := plain_of_startsIdentifier hstarts
  obtain rfl : word = String.ofList (c :: more) := by rw [← hword, String.ofList_toList]
  rw [String.toList_ofList]
  refine scans_inTag hblank (fun s hd hs => ?_) h
  have hrun : (c :: (more ++ rest)).takeWhile Token.continuesIdentifier = c :: more := by
    rw [← List.cons_append]
    refine (Text.split_run _ _ _ ?_ hrest).1
    exact List.forall_mem_cons.mpr ⟨Token.continuesIdentifier_of_starts hstarts, hcontinues⟩
  rw [nextInTag_eq hd hs (.inl hplain) hnul, if_pos hstarts, nextWord, hs, hrun, hkind]

/-- A keyword is made of the letters of a name. -/
theorem keyword_letters {word : String} (h : word ∈ Token.keywords) :
    ∃ c more, word.toList = c :: more ∧ Token.startsIdentifier c = true ∧
      ∀ d ∈ more, Token.continuesIdentifier d = true := by
  have hall : ∀ word ∈ Token.keywords, word.toList ≠ [] ∧
      word.toList.head?.all Token.startsIdentifier = true ∧
      word.toList.tail.all Token.continuesIdentifier = true := by
    decide +kernel
  obtain ⟨hne, hstarts, hcontinues⟩ := hall word h
  obtain ⟨c, more, hchars⟩ := List.exists_cons_of_ne_nil hne
  rw [hchars] at hstarts hcontinues
  exact ⟨c, more, hchars, hstarts, List.all_eq_true.mp hcontinues⟩

theorem plain_of_isDigit {c : Char} (h : Text.isDigit c = true) :
    isTagBlank c = false ∧ c ∉ ['%', '\x7d', '-', '~', '+'] ∧ c ≠ '\x00' ∧ c ≠ '_' := by
  have hnone : ([' ', '\t', '\r', '\n', '%', '\x7d', '-', '~', '+', '\x00', '_'].all fun d =>
      Text.isDigit d = false) = true := by
    decide +kernel
  have hne : ∀ d ∈ [' ', '\t', '\r', '\n', '%', '\x7d', '-', '~', '+', '\x00', '_'], c ≠ d := by
    rintro d hd rfl
    have hd := of_decide_eq_true (List.all_eq_true.mp hnone c hd)
    rw [hd] at h
    cases h
  simp only [List.forall_mem_cons, List.not_mem_nil, false_implies, implies_true, and_true] at hne
  simp [isTagBlank, hne]

/-- Digits are a number as far as they go. -/
theorem split_digits {digits text : List Char} (hdigits : ∀ c ∈ digits, Text.isDigit c = true)
    (htext : ∀ c ∈ text.head?, continuesNumber c = false) :
    (digits ++ text).takeWhile continuesNumber = digits ∧
      (digits ++ text).dropWhile continuesNumber = text :=
  Text.split_run _ _ _ (fun c hc => by simp [continuesNumber, hdigits c hc]) htext

/-- A number ends where no number goes on, and its low lines, of which it has none, are left out. -/
theorem numberText_eq {text : List Char} (h : DigitText text) :
    (∃ c more, text = c :: more ∧ Text.isDigit c = true) ∧
      (∀ rest, (∀ c ∈ rest.head?, continuesNumber c = false) →
        (∀ c more, rest = '.' :: c :: more → Text.isDigit c = false) →
        numberText (text ++ rest) = text) ∧ text.filter (· ≠ '_') = text := by
  have hpoint : continuesNumber '.' = false := by decide +kernel
  have hvalue : ∀ digits : List Char, (∀ c ∈ digits, Text.isDigit c) →
      digits.filter (· ≠ '_') = digits := by
    intro digits hdigits
    rw [List.filter_eq_self]
    exact fun c hc => by simp [(plain_of_isDigit (hdigits c hc)).2.2.2]
  cases h with
  | whole hne hdigits =>
      obtain ⟨c, more, rfl⟩ := List.exists_cons_of_ne_nil hne
      refine ⟨⟨c, more, rfl, hdigits c List.mem_cons_self⟩, ?_, hvalue _ hdigits⟩
      intro rest hrest hfraction
      obtain ⟨htake, hdrop⟩ := split_digits hdigits hrest
      rw [numberText, htake, hdrop]
      split
      · next d after => rw [if_neg (by simp [hfraction d after rfl])]
      · rfl
  | @pointed whole fraction hwhole hfraction hdigits =>
      obtain ⟨hwholes, hfractions⟩ := List.forall_mem_append.mp hdigits
      obtain ⟨c, more, hchars⟩ := List.exists_cons_of_ne_nil hwhole
      obtain ⟨d, after, rfl⟩ := List.exists_cons_of_ne_nil hfraction
      refine ⟨⟨c, more ++ '.' :: d :: after, by rw [hchars]; rfl, ?_⟩, fun rest hrest _ => ?_, ?_⟩
      · exact hwholes c (hchars ▸ List.mem_cons_self)
      · obtain ⟨htake, hdrop⟩ := @split_digits _ ('.' :: (d :: after ++ rest)) hwholes
          (by rintro _ ⟨⟩; exact hpoint)
        obtain ⟨hmore, -⟩ := split_digits hfractions hrest
        rw [List.append_assoc, List.cons_append, numberText, htake, hdrop]
        show (if Text.isDigit d then _ else _) = _
        rw [if_pos (hfractions d List.mem_cons_self)]
        exact congrArg (fun digits => whole ++ '.' :: digits) hmore
      · have hkept : (decide (('.' : Char) ≠ '_')) = true := by decide
        rw [List.filter_append, List.filter_cons, if_pos hkept, hvalue _ hwholes,
          hvalue _ hfractions]

theorem scans_number {text : List Char} (htext : DigitText text)
    (hrest : ∀ d ∈ rest.head?, continuesNumber d = false)
    (hpoint : ∀ d more, rest = '.' :: d :: more → Text.isDigit d = false)
    (h : Scans .tag rest ls problem) :
    Scans .tag (text ++ rest) ((.number, String.ofList text) :: ls) problem := by
  obtain ⟨⟨c, more, rfl, hdigit⟩, hread, hvalue⟩ := numberText_eq htext
  obtain ⟨hblank, hplain, hnul, -⟩ := plain_of_isDigit hdigit
  refine scans_inTag hblank (fun s hd hs => ?_) h
  have hread := hread rest hrest hpoint
  rw [List.cons_append] at hread
  rw [nextInTag_eq hd hs (.inl hplain) hnul,
    if_neg (by simp [Token.startsIdentifier_eq_false_of_isDigit hdigit]), if_pos hdigit,
    nextNumber, hs, hread, hvalue]

/-! ## Strings -/

section

variable {opened place : Position} {quote c d : Char} {decoded text : List Char}

theorem stringBody_quote :
    stringBody opened quote place decoded (quote :: text) = .ok (decoded.reverse, text) := by
  rw [stringBody.eq_def]
  exact if_pos rfl

theorem stringBody_escaped (hquote : quote ≠ '\\') (hd : escaped? c = some d) :
    stringBody opened quote place decoded ('\\' :: c :: text) =
      stringBody opened quote ((place.next '\\').next c) (d :: decoded) text := by
  rw [stringBody.eq_def]
  dsimp only
  rw [if_neg hquote.symm, if_pos rfl, hd]

theorem stringBody_plain (hquote : c ≠ quote) (hslash : c ≠ '\\') (hnul : c ≠ '\x00') :
    stringBody opened quote place decoded (c :: text) =
      stringBody opened quote (place.next c) (c :: decoded) text := by
  rw [stringBody.eq_def]
  dsimp only
  rw [if_neg hquote, if_neg hslash, if_neg hnul]

end

/-- What was escaped is decoded up to the closing quote. -/
theorem stringBody_escapeIn {quote : Char} {value : List Char} (hquote : quote = '"' ∨ quote = '\'')
    (hnul : '\x00' ∉ value) (opened place : Position) (decoded : List Char) :
    stringBody opened quote place decoded (value.flatMap (escapeIn quote) ++ quote :: rest) =
      .ok (decoded.reverse ++ value, rest) := by
  have hslash : quote ≠ '\\' := by rcases hquote with rfl | rfl <;> decide
  induction value generalizing place decoded with
  | nil => rw [List.flatMap_nil, List.nil_append, stringBody_quote, List.append_nil]
  | cons c value ih =>
      obtain ⟨hc, hvalue⟩ := not_or.mp (mt List.mem_cons.mpr hnul)
      rw [List.flatMap_cons, List.append_assoc, escapeIn]
      split
      · next hescaped =>
          have hdecoded : escaped? c = some c := by
            rcases hescaped with rfl | rfl
            · rcases hquote with rfl | rfl <;> rfl
            · rfl
          rw [List.cons_append, List.singleton_append, stringBody_escaped hslash hdecoded,
            ih hvalue]
          simp
      · next hplain =>
          obtain ⟨hne, hne'⟩ := not_or.mp hplain
          rw [List.singleton_append, stringBody_plain hne hne' (Ne.symm hc), ih hvalue]
          simp

theorem nextInTag_quote {s : Scanner} {quote : Char} {body : List Char}
    (hquote : quote = '"' ∨ quote = '\'') (hd : s.delimiters = .standard)
    (hs : s.rest = quote :: body) :
    s.nextInTag = s.nextString quote body := by
  have hplain : quote ∉ ['%', '\x7d', '-', '~', '+'] ∧ quote ≠ '\x00' ∧
      Token.startsIdentifier quote = false ∧ Text.isDigit quote = false := by
    rcases hquote with rfl | rfl <;> decide +kernel
  obtain ⟨hsign, hne, hstarts, hdigit⟩ := hplain
  rw [nextInTag_eq hd hs (.inl hsign) hne, if_neg (by simp [hstarts]), if_neg (by simp [hdigit]),
    if_pos (by simpa using hquote)]

/-- Between quotes stands what is decoded. -/
theorem scans_quoted {quote : Char} {value body : List Char} (hquote : quote = '"' ∨ quote = '\'')
    (hbody : ∀ opened place, stringBody opened quote place [] (body ++ quote :: rest) =
      .ok (value, rest)) (h : Scans .tag rest ls problem) :
    Scans .tag (quote :: (body ++ quote :: rest)) ((.string, String.ofList value) :: ls)
      problem := by
  have hblank : isTagBlank quote = false := by
    rcases hquote with rfl | rfl <;> rfl
  have hscans := @scans_inTag rest ls problem .tag quote (body ++ [quote]) value .string hblank
    (fun s hd hs => ?_) h
  · rwa [List.append_assoc, List.singleton_append] at hscans
  have hraw : s.rest = (quote :: (body ++ [quote])) ++ rest := hs
  rw [List.append_assoc, List.singleton_append] at hs
  rw [nextInTag_quote hquote hd hs, nextString, hbody]
  dsimp only
  rw [hraw, List.length_append, Nat.add_sub_cancel, List.take_left]

theorem scans_badQuoted {quote : Char} {body : List Char} {problem : LexicalProblem}
    (hquote : quote = '"' ∨ quote = '\'')
    (hbody : ∀ opened place, ∃ ends, stringBody opened quote place [] body =
      .error (problem, ends)) : Scans .tag (quote :: body) [] (some problem) := by
  have hblank : isTagBlank quote = false := by
    rcases hquote with rfl | rfl <;> rfl
  refine scans_fault hblank fun s hd hs => ?_
  obtain ⟨ends, hfails⟩ := hbody s.position (s.position.next quote)
  refine ⟨ends.1, ends.2, ?_⟩
  rw [nextInTag_quote hquote hd hs, nextString, hfails]

theorem scans_string {quote : Char} {value : String} (hquote : quote = '"' ∨ quote = '\'')
    (hnul : '\x00' ∉ value.toList) (h : Scans .tag rest ls problem) :
    Scans .tag (quote :: (value.toList.flatMap (escapeIn quote) ++ [quote]) ++ rest)
      ((.string, value) :: ls) problem := by
  have hbody : ∀ opened place, stringBody opened quote place []
      (value.toList.flatMap (escapeIn quote) ++ quote :: rest) = .ok (value.toList, rest) :=
    fun opened place => stringBody_escapeIn hquote hnul opened place []
  have hscans := scans_quoted hquote hbody h
  rw [String.ofList_toList] at hscans
  rwa [List.cons_append, List.append_assoc, List.singleton_append]

/-! ## Signs -/

/-- The characters that a sign may start with. -/
def signStarts : List Char :=
  ['=', '!', '<', '>', '/', '+', '-', '*', '%', '~', ',', '(', ')', '[', ']', '.', '|', ':']

/-- No sign goes on with the text, and none ends a tag with it. -/
def NoSign (rest : List Char) : Prop :=
  ∀ d ∈ rest.head?, d ∉ ['=', '/', '%', '\x7d']

theorem NoSign.ne {d : Char} (h : NoSign (d :: rest)) : '=' ≠ d ∧ '/' ≠ d := by
  have hd := h d rfl
  simp only [List.mem_cons, not_or] at hd
  exact ⟨Ne.symm hd.1, Ne.symm hd.2.1⟩

theorem NoSign.second {more : List Char} (h : NoSign rest) (hmore : more ∈ [[], ['='], ['/']]) :
    ∀ d ∈ (more ++ rest).head?, d ∉ ['%', '\x7d'] := by
  simp only [List.mem_cons, List.not_mem_nil, or_false] at hmore
  rcases hmore with rfl | rfl | rfl
  · intro d hd hmem
    exact h d hd (List.mem_cons_of_mem _ (List.mem_cons_of_mem _ hmem))
  · simp
  · simp

theorem scans_sign {c : Char} {more : List Char} {kind : TokenKind} (hc : c ∈ signStarts)
    (hapart : c ∉ ['%', '\x7d', '-', '~', '+'] ∨ ∀ d ∈ (more ++ rest).head?, d ∉ ['%', '\x7d'])
    (hsign : ∀ s : Scanner, s.rest = c :: (more ++ rest) →
      s.nextSign c = s.emit kind (c :: more) (c :: more) .tag)
    (h : Scans .tag rest ls problem) :
    Scans .tag (c :: (more ++ rest)) ((kind, String.ofList (c :: more)) :: ls) problem := by
  have hall : (signStarts.all fun c => isTagBlank c = false ∧ c ≠ '\x00' ∧
      Token.startsIdentifier c = false ∧ Text.isDigit c = false ∧
      (c = '"' || c = '\'') = false) = true := by
    decide +kernel
  obtain ⟨hblank, hnul, hstarts, hdigit, hquote⟩ :=
    of_decide_eq_true (List.all_eq_true.mp hall c hc)
  refine scans_inTag hblank (fun s hd hs => ?_) h
  rw [nextInTag_eq hd hs hapart hnul, if_neg (by simp [hstarts]), if_neg (by simp [hdigit]),
    if_neg (by simp [hquote]), hsign s hs]

theorem find?_operator {sign : String} (hsign : sign ∈ Token.operators) (hrest : NoSign rest) :
    Token.operators.find? (beginsWith (sign.toList ++ rest)) = some sign := by
  simp only [Token.operators, List.mem_cons, List.not_mem_nil, or_false] at hsign
  cases rest with
  | nil =>
      rcases hsign with rfl | rfl | rfl | rfl | rfl | rfl | rfl | rfl | rfl | rfl | rfl | rfl |
        rfl <;> rfl
  | cons d rest =>
      have hd := hrest.ne
      rcases hsign with rfl | rfl | rfl | rfl | rfl | rfl | rfl | rfl | rfl | rfl | rfl | rfl |
        rfl <;> simp [Token.operators, beginsWith, List.isPrefixOf, hd]

theorem scans_operator {sign : String} (hsign : sign ∈ Token.operators) (hrest : NoSign rest)
    (h : Scans .tag rest ls problem) :
    Scans .tag (sign.toList ++ rest) ((.operator, sign) :: ls) problem := by
  have hfound := find?_operator hsign hrest
  obtain ⟨c, more, hchars, hc, hmore⟩ : ∃ c more, sign.toList = c :: more ∧ c ∈ signStarts ∧
      more ∈ [[], ['='], ['/']] := by
    simp only [Token.operators, List.mem_cons, List.not_mem_nil, or_false] at hsign
    rcases hsign with
      rfl | rfl | rfl | rfl | rfl | rfl | rfl | rfl | rfl | rfl | rfl | rfl | rfl <;>
      exact ⟨_, _, rfl, by decide, by decide⟩
  obtain rfl : sign = String.ofList (c :: more) := by rw [← hchars, String.ofList_toList]
  rw [String.toList_ofList, List.cons_append] at hfound ⊢
  refine scans_sign hc (.inr (hrest.second hmore)) (fun s hs => ?_) h
  rw [nextSign, hs, hfound]
  dsimp only
  rw [String.toList_ofList]

theorem punctuation?_eq_some {c : Char} {kind : TokenKind} (h : Token.punctuation? c = some kind) :
    c ∈ [',', '(', ')', '[', ']', '.', '|', ':', '='] ∧ kind.isInner ∧ kind ≠ .string := by
  unfold Token.punctuation? at h
  split at h <;> cases h <;> exact ⟨by decide, rfl, by decide⟩

theorem scans_punctuation {c : Char} {kind : TokenKind} (hc : Token.punctuation? c = some kind)
    (hrest : c = '=' → NoSign rest) (h : Scans .tag rest ls problem) :
    Scans .tag (c :: rest) ((kind, String.ofList [c]) :: ls) problem := by
  obtain ⟨hmem, -⟩ := punctuation?_eq_some hc
  have hstarts : c ∈ signStarts ∧ c ∉ ['%', '\x7d', '-', '~', '+'] := by
    simp only [List.mem_cons, List.not_mem_nil, or_false] at hmem
    rcases hmem with rfl | rfl | rfl | rfl | rfl | rfl | rfl | rfl | rfl <;>
      exact ⟨by decide, by decide⟩
  have hfound : Token.operators.find? (beginsWith (c :: rest)) = none := by
    simp only [List.mem_cons, List.not_mem_nil, or_false] at hmem
    by_cases hequals : c = '='
    · subst hequals
      cases rest with
      | nil => rfl
      | cons d rest => simp [Token.operators, beginsWith, List.isPrefixOf, (hrest rfl).ne]
    · rcases hmem with rfl | rfl | rfl | rfl | rfl | rfl | rfl | rfl | rfl <;>
        first | rfl | exact absurd rfl hequals
  refine @scans_sign rest ls problem c [] kind hstarts.1 (.inl hstarts.2) (fun s hs => ?_) h
  rw [List.nil_append] at hs
  rw [nextSign, hs, hfound, hc]

/-! ## Lexemes -/

/-- No lexeme in front of the text goes on with it. -/
structure Apart (rest : List Char) : Prop where
  word : ∀ d ∈ rest.head?, Token.continuesIdentifier d = false
  number : ∀ d ∈ rest.head?, continuesNumber d = false
  point : ∀ d more, rest = '.' :: d :: more → Text.isDigit d = false
  sign : NoSign rest

theorem apart_blank (rest : List Char) : Apart (' ' :: rest) where
  word := by
    rintro _ ⟨⟩
    decide +kernel
  number := by
    rintro _ ⟨⟩
    decide +kernel
  point := nofun
  sign := by
    rintro _ ⟨⟩
    decide

theorem scans_written {l : Lexeme} {text : List Char} (hl : l.Written text) (hrest : Apart rest)
    (h : Scans .tag rest ls problem) : Scans .tag (text ++ rest) (l :: ls) problem := by
  cases hl with
  | name hname =>
      obtain ⟨⟨c, more, hchars, hstarts, hcontinues⟩, hkeyword⟩ := hname
      exact scans_word hchars hstarts hcontinues (if_neg (by simpa using hkeyword)) hrest.word h
  | keyword hword =>
      obtain ⟨c, more, hchars, hstarts, hcontinues⟩ := keyword_letters hword
      exact scans_word hchars hstarts hcontinues (if_pos (by simpa using hword)) hrest.word h
  | operator hsign => exact scans_operator hsign hrest.sign h
  | number htext => exact scans_number htext hrest.number hrest.point h
  | punctuation hc => exact scans_punctuation hc (fun _ => hrest.sign) h
  | string hquote hnul => exact scans_string hquote hnul h

end Scanner

end TemplateCompiler
