import Mathlib.Data.List.Pairwise
import TemplateCompiler.Proofs.WrittenSources

/-!
# Delimiters that can be used

A set of delimiters that passes the check can be told apart where tags open: no opener begins
another, so the one that a tag is written with is the one that is found. Closing delimiters are not
compared with each other. Where a tag closes, the scanner tries the block's delimiter before the
expression's, and behind a whitespace marker before it tries either at the marker itself; so a
closing delimiter may be read as the other one.

`check_usable` says of each kind of tag when it is read as it was written. Comments and blocks can
always be written, the latter with a whitespace marker at worst. Expressions can be written unless
their closing delimiter begins with that of blocks; if it does, no expression of any source is ever
closed.
-/

namespace TemplateCompiler

/-! ## Tags of given delimiters -/

def TagKind.other : TagKind → TagKind
  | .block => .output
  | .output => .block

namespace Delimiters

def opener (d : Delimiters) : TagKind → String
  | .block => d.blockStart
  | .output => d.exprStart

def closer (d : Delimiters) : TagKind → String
  | .block => d.blockEnd
  | .output => d.exprEnd

/-- A tag that holds the name `x`, set off by spaces, with a marker on its closing delimiter or
without. -/
def nameTag (d : Delimiters) (kind : TagKind) (right : Option Whitespace) : String :=
  d.opener kind ++ " x " ++ String.ofList (Whitespace.marker right) ++ d.closer kind

def nameComment (d : Delimiters) : String :=
  d.commentStart ++ " x " ++ d.commentEnd

/-- The source is read without a fault, as these lexemes. -/
def Reads (d : Delimiters) (unit source : String) (ls : List Lexeme) : Prop :=
  ∃ ts, tokenize source unit d = (ts, none) ∧ ts.map Token.lexeme = ls

/-- Is the delimiter a whitespace marker and a text that begins with the other one? -/
def marks (delimiter other : String) : Bool :=
  match delimiter.toList with
  | [] => false
  | c :: rest => Whitespace.isMarker c && Scanner.beginsWith rest other

/-- Is the delimiter that closes such tags begun by that of blocks, which is tried first? -/
def overtaken (d : Delimiters) : TagKind → Bool
  | .block => false
  | .output => Scanner.beginsWith d.exprEnd.toList d.blockEnd

/-- Is something else found where such a tag closes? A marker that is written in front of the
delimiter is the marker then, so that none is sought in the delimiter. -/
def shadowed (d : Delimiters) (kind : TagKind) (right : Option Whitespace) : Bool :=
  d.overtaken kind || right.isNone && marks (d.closer kind) (d.closer kind.other)

end Delimiters

section

variable {d : Delimiters} (hd : d.check = .ok ())

include hd

/-! ## Openers -/

theorem Delimiters.check_length {delimiter : String} (h : delimiter ∈ d.toList) :
    2 ≤ delimiter.toList.length :=
  ((Delimiters.check_eq_ok_iff.mp hd).1 delimiter h).1

theorem Delimiters.check_plain {delimiter : String} (h : delimiter ∈ d.toList) :
    ∀ c ∈ delimiter.toList, Text.isBlank c = false :=
  ((Delimiters.check_eq_ok_iff.mp hd).1 delimiter h).2

/-- Of two openers neither begins the other. -/
theorem Delimiters.check_apart {s t : String} (hs : s ∈ d.openers) (ht : t ∈ d.openers)
    (h : s.toList <+: t.toList ∨ t.toList <+: s.toList) : s = t := by
  have hsymm : Std.Symm fun s t : String => ¬ s.toList <+: t.toList ∧ ¬ t.toList <+: s.toList :=
    ⟨fun _ _ h => h.symm⟩
  by_contra hne
  have happart := (Delimiters.check_eq_ok_iff.mp hd).2.forall hs ht hne
  exact h.elim happart.1 happart.2

/-- What begins with an opener is opened by it. -/
theorem Scanner.opener?_append {opener : String} (h : opener ∈ d.openers) (text : List Char) :
    opener? d (opener.toList ++ text) = some (opener, openerKind d opener) := by
  have hbegins : opener.toList <+: opener.toList ++ text := List.prefix_append _ _
  obtain ⟨other, hfound⟩ : ∃ other,
      d.openers.find? (beginsWith (opener.toList ++ text)) = some other := by
    rw [← Option.isSome_iff_exists, List.find?_isSome]
    exact ⟨opener, h, beginsWith_iff.mpr hbegins⟩
  have hother := beginsWith_iff.mp (List.find?_some hfound)
  obtain rfl : other = opener := Delimiters.check_apart hd (List.mem_of_find?_eq_some hfound) h
    (List.prefix_or_prefix_of_prefix hother hbegins)
  rw [opener?, hfound]
  rfl

theorem Scanner.opener?_opener (kind : TagKind) (text : List Char) :
    opener? d ((d.opener kind).toList ++ text) = some (d.opener kind, kind.opens) := by
  have hpairwise := (Delimiters.check_eq_ok_iff.mp hd).2
  simp only [Delimiters.openers, List.pairwise_cons, List.forall_mem_cons] at hpairwise
  obtain ⟨⟨hexpr, hcomment, -⟩, ⟨hcomment', -⟩, -⟩ := hpairwise
  have hne : ∀ {s t : String}, ¬ s.toList <+: t.toList → s ≠ t := by
    rintro s t h rfl
    exact h List.prefix_rfl
  have hmem : d.opener kind ∈ d.openers := by
    cases kind <;> simp [Delimiters.openers, Delimiters.opener]
  have hkind : openerKind d (d.opener kind) = kind.opens := by
    cases kind with
    | block => exact (if_neg (hne hcomment.1)).trans (if_pos rfl)
    | output => exact (if_neg (hne hcomment'.1)).trans (if_neg (hne hexpr.2))
  rw [opener?_append hd hmem, hkind]

end

/-! ## Closing delimiters -/

namespace Scanner

variable {d : Delimiters}

/-- A delimiter of blocks is tried before one of expressions. -/
theorem closer?_eq_some_iff {text : List Char} {found : String × TokenKind} :
    closer? d text = some found ↔
      (d.blockEnd.toList <+: text ∧ found = (d.blockEnd, .blockEnd)) ∨
        (¬ d.blockEnd.toList <+: text ∧ d.exprEnd.toList <+: text ∧
          found = (d.exprEnd, .exprEnd)) := by
  unfold closer?
  simp only [beginsWith_iff]
  by_cases hblock : d.blockEnd.toList <+: text
  · simp [hblock, eq_comm]
  · by_cases hexpr : d.exprEnd.toList <+: text <;> simp [hblock, hexpr, eq_comm]

theorem closer?_closer (d : Delimiters) (kind : TagKind) :
    closer? d (d.closer kind).toList =
      some (if d.overtaken kind then (d.blockEnd, .blockEnd)
        else (d.closer kind, kind.closes)) := by
  rw [closer?_eq_some_iff]
  cases kind with
  | block => exact .inl ⟨List.prefix_rfl, rfl⟩
  | output =>
      by_cases hbegins : d.blockEnd.toList <+: d.exprEnd.toList
      · exact .inl ⟨hbegins, if_pos (beginsWith_iff.mpr hbegins)⟩
      · exact .inr ⟨hbegins, List.prefix_rfl, if_neg (mt beginsWith_iff.mp hbegins)⟩

/-- In a closing delimiter behind its first character, only the other one can be found. -/
theorem closer?_inside {kind : TagKind} {c : Char} {rest : List Char}
    (h : (d.closer kind).toList = c :: rest) :
    (closer? d rest).isSome = beginsWith rest (d.closer kind.other) := by
  have hown : beginsWith rest (d.closer kind) = false := by
    rw [Bool.eq_false_iff, Ne, beginsWith_iff, h]
    intro hbegins
    exact absurd hbegins.length_le (by simp)
  unfold closer?
  cases kind with
  | block =>
      have hown : beginsWith rest d.blockEnd = false := hown
      rw [hown, if_neg (by decide)]
      show _ = beginsWith rest d.exprEnd
      cases beginsWith rest d.exprEnd <;> rfl
  | output =>
      have hown : beginsWith rest d.exprEnd = false := hown
      rw [hown]
      show _ = beginsWith rest d.blockEnd
      cases beginsWith rest d.blockEnd <;> rfl

open Whitespace (marker)

/-- What is found where a tag closes. -/
theorem markedCloser?_closer {kind : TagKind} (hne : (d.closer kind).toList ≠ [])
    (right : Option Whitespace) :
    ∃ m found, markedCloser? d (marker right ++ (d.closer kind).toList) = some (m, found) ∧
      if right.isNone && Delimiters.marks (d.closer kind) (d.closer kind.other) then
        m ≠ marker right
      else m = marker right ∧ closer? d (d.closer kind).toList = some found := by
  have hplain := closer?_closer d kind
  cases right with
  | none =>
      obtain ⟨c, rest, hchars⟩ := List.exists_cons_of_ne_nil hne
      have hmarks : Delimiters.marks (d.closer kind) (d.closer kind.other) =
          (Whitespace.isMarker c && (closer? d rest).isSome) := by
        rw [Delimiters.marks, hchars, closer?_inside hchars]
      have htried : markedCloser? d (marker none ++ (d.closer kind).toList) =
          (if Whitespace.isMarker c then (closer? d rest).map ([c], ·) else none).or
            ((closer? d (d.closer kind).toList).map ([], ·)) := by
        rw [hchars]
        rfl
      rw [hmarks, htried, hplain]
      cases hc : Whitespace.isMarker c with
      | false => exact ⟨[], _, rfl, rfl, rfl⟩
      | true =>
          cases hrest : closer? d rest with
          | none => exact ⟨[], _, rfl, rfl, rfl⟩
          | some found => exact ⟨[c], found, rfl, List.cons_ne_nil _ _⟩
  | some w =>
      obtain ⟨c, hc, hmarker⟩ : ∃ c, marker (some w) = [c] ∧ Whitespace.isMarker c = true := by
        cases w <;> exact ⟨_, rfl, rfl⟩
      refine ⟨[c], _, ?_, (if_neg nofun).mpr ⟨hc.symm, hplain⟩⟩
      rw [hc, markedCloser?.eq_def, List.singleton_append]
      dsimp only
      rw [if_pos hmarker, hplain]
      rfl

/-- Nothing else is read from the tag exactly if its closing delimiter is found. -/
theorem found_iff_not_shadowed {kind : TagKind} {right : Option Whitespace} {m : List Char}
    {found : String × TokenKind}
    (h : if right.isNone && Delimiters.marks (d.closer kind) (d.closer kind.other) then
        m ≠ marker right
      else m = marker right ∧ closer? d (d.closer kind).toList = some found) :
    (m = marker right ∧ found.2 = kind.closes ↔ d.shadowed kind right = false) ∧
      (d.shadowed kind right = false → found = (d.closer kind, kind.closes)) := by
  rw [closer?_closer, Option.some.injEq] at h
  unfold Delimiters.shadowed
  cases hmarks : right.isNone && Delimiters.marks (d.closer kind) (d.closer kind.other) with
  | true =>
      rw [hmarks, if_pos rfl] at h
      simp [h]
  | false =>
      rw [hmarks, if_neg (by decide)] at h
      obtain ⟨rfl, rfl⟩ := h
      cases hovertaken : d.overtaken kind with
      | true =>
          have hkind : TokenKind.blockEnd ≠ kind.closes := by
            cases kind with
            | block => cases hovertaken
            | output => decide
          simp [hkind]
      | false => simp

/-! ## Whole tags -/

/-- A name that ends at a space. -/
theorem next_name {s : Scanner} {text : List Char} (hmode : s.mode = .tag)
    (hs : s.rest = ' ' :: 'x' :: ' ' :: text)
    (hcloser : markedCloser? s.delimiters ('x' :: ' ' :: text) = none) :
    ∃ s₀ : Scanner, s.next = s₀.emit .identifier ['x'] ['x'] .tag ∧
      s₀.rest = 'x' :: ' ' :: text ∧ s₀.delimiters = s.delimiters := by
  have hskipped := rest_skipBlanks hs (by decide)
  refine ⟨s.skipBlanks, ?_, hskipped, rfl⟩
  have hstarts : Token.startsIdentifier 'x' = true := by decide +kernel
  have hword : ('x' :: ' ' :: text).takeWhile Token.continuesIdentifier = ['x'] := by
    have hcontinues : Token.continuesIdentifier 'x' = true := by decide +kernel
    have hends : Token.continuesIdentifier ' ' = false := by decide +kernel
    rw [List.takeWhile_cons_of_pos hcontinues, List.takeWhile_cons_of_neg (by simp [hends])]
  rw [next, hmode]
  dsimp only
  rw [nextInTag, hskipped]
  dsimp only
  rw [show s.skipBlanks.delimiters = s.delimiters from rfl, hcloser]
  dsimp only
  rw [if_neg (by decide), if_pos hstarts, nextWord, hskipped, hword]
  rfl

theorem next_closer {s : Scanner} {c : Char} {text m : List Char} {closer : String}
    {kind : TokenKind} (hmode : s.mode = .tag) (hs : s.rest = ' ' :: c :: text)
    (hc : isTagBlank c = false)
    (hcloser : markedCloser? s.delimiters (c :: text) = some (m, closer, kind)) :
    ∃ s₀ : Scanner, s.next = s₀.emit kind m (m ++ closer.toList) .text ∧ s₀.rest = c :: text ∧
      s₀.delimiters = s.delimiters := by
  have hskipped := rest_skipBlanks hs hc
  refine ⟨s.skipBlanks, ?_, hskipped, rfl⟩
  rw [next, hmode]
  dsimp only
  rw [nextInTag, hskipped]
  dsimp only
  rw [show s.skipBlanks.delimiters = s.delimiters from rfl, hcloser]

section

variable (hd : d.check = .ok ())

include hd

/-- A space is no part of a delimiter, nor is a single character that stands before one. -/
theorem not_begins_blank {delimiter : String} (h : delimiter ∈ d.toList)
    (before after : List Char) (hbefore : before.length ≤ 1) :
    ¬ delimiter.toList <+: before ++ ' ' :: after := by
  intro hbegins
  have hlength := Delimiters.check_length hd h
  have hspace : before ++ [' '] <+: delimiter.toList :=
    List.prefix_of_prefix_length_le ⟨after, by simp⟩ hbegins (by simp; omega)
  have hplain := Delimiters.check_plain hd h ' ' (hspace.subset (by simp))
  revert hplain
  decide +kernel

theorem markedCloser?_name (text : List Char) : markedCloser? d ('x' :: ' ' :: text) = none := by
  have hplain : closer? d ('x' :: ' ' :: text) = none := by
    rw [Option.eq_none_iff_forall_ne_some]
    intro found hfound
    obtain ⟨hmem, hbegins, -⟩ := closer?_eq_some hfound
    exact not_begins_blank hd hmem ['x'] text (Nat.le_refl _) hbegins
  rw [markedCloser?.eq_def]
  dsimp only
  rw [if_neg (by decide), hplain]
  rfl

/-- No blank is skipped in front of a closing delimiter and its marker. -/
theorem closer_starts (right : Option Whitespace) {closer : String} (h : closer ∈ d.toList) :
    ∃ c text, marker right ++ closer.toList = c :: text ∧ isTagBlank c = false := by
  cases right with
  | some w => cases w <;> exact ⟨_, _, rfl, rfl⟩
  | none =>
      obtain ⟨c, text, hchars⟩ := List.exists_cons_of_ne_nil (Delimiters.solid_of_check hd closer h)
      refine ⟨c, text, hchars, ?_⟩
      have hplain := Delimiters.check_plain hd h c (hchars ▸ List.mem_cons_self)
      have hblank : ∀ c ∈ [' ', '\t', '\r', '\n'], Text.isBlank c = true :=
        List.all_eq_true.mp (by decide +kernel)
      by_contra hc
      rw [Bool.not_eq_false] at hc
      have hmem : c ∈ [' ', '\t', '\r', '\n'] := by
        simpa [isTagBlank, or_assoc] using hc
      rw [hblank c hmem] at hplain
      cases hplain

/-- The tokens of a tag up to the delimiter that is found where it closes. -/
theorem tokenize_nameTag (unit : String) {kind : TagKind} {right : Option Whitespace}
    {m : List Char} {closer : String} {k : TokenKind}
    (h : markedCloser? d (marker right ++ (d.closer kind).toList) = some (m, closer, k)) :
    ∃ (ts : List Token) (s : Scanner) (fuel : Nat),
      ts.map Token.lexeme = [(kind.opens, ""), (.identifier, "x"), (k, String.ofList m)] ∧
        s.mode = .text ∧ m ++ closer.toList ++ s.rest = marker right ++ (d.closer kind).toList ∧
        tokenize (d.nameTag kind right) unit d =
          (ts ++ (s.run (fuel + 1)).1, (s.run (fuel + 1)).2) := by
  have hmem : d.opener kind ∈ d.toList ∧ d.closer kind ∈ d.toList := by
    cases kind <;> simp [Delimiters.toList, Delimiters.opener, Delimiters.closer]
  have hsource : (d.nameTag kind right).toList = (d.opener kind).toList ++
      (marker none ++ ' ' :: 'x' :: ' ' :: (marker right ++ (d.closer kind).toList)) := by
    simp [Delimiters.nameTag, marker]
  obtain ⟨s, hs, hsd, hsmode, hsrest⟩ : ∃ s, Scanner.ofSource (d.nameTag kind right) unit d = s ∧
      s.delimiters = d ∧ s.mode = .text ∧ s.rest = (d.nameTag kind right).toList :=
    ⟨_, rfl, rfl, rfl, rfl⟩
  rw [hsource] at hsrest
  -- the opening delimiter
  have hnext := next_opener hsmode (Delimiters.solid_of_check hd _ hmem.1) hsrest
    (by rw [hsd, hsrest, opener?_opener hd])
  rw [if_neg (by cases kind <;> decide)] at hnext
  obtain ⟨t₁, s₁, ht₁, hd₁, hmode₁, hrest₁, hrun₁⟩ :=
    run_emit (' ' :: 'x' :: ' ' :: (marker right ++ (d.closer kind).toList)) hnext
      (by rw [hsrest, List.append_assoc])
  -- the name
  have hnone : markedCloser? s₁.delimiters
      ('x' :: ' ' :: (marker right ++ (d.closer kind).toList)) = none := by
    rw [hd₁, hsd]
    exact markedCloser?_name hd _
  obtain ⟨s₁', hnext₁, hrest₁', hd₁'⟩ := next_name hmode₁ hrest₁ hnone
  obtain ⟨t₂, s₂, ht₂, hd₂, hmode₂, hrest₂, hrun₂⟩ := run_emit _ hnext₁ hrest₁'
  -- the delimiter that is found
  obtain ⟨c, text, hchars, hblank⟩ := closer_starts hd right hmem.2
  obtain ⟨after, hafter⟩ := (markedCloser?_eq_some h).2.1
  rw [hchars] at h hrest₂ hafter
  obtain ⟨s₂', hnext₂, hrest₂', hd₂'⟩ := next_closer hmode₂ hrest₂ hblank
    (by rw [hd₂, hd₁', hd₁, hsd]; exact h)
  obtain ⟨t₃, s₃, ht₃, -, hmode₃, hrest₃, hrun₃⟩ := run_emit _ hnext₂ (hrest₂'.trans hafter.symm)
  refine ⟨[t₁, t₂, t₃], s₃, 4 * (d.nameTag kind right).toList.length, ?_, hmode₃, ?_, ?_⟩
  · simp [ht₁, ht₂, ht₃, marker]
  · rw [hrest₃, hafter, hchars]
  · rw [tokenize, hs, fuelFor, show 4 * (d.nameTag kind right).toList.length + 4 =
      4 * (d.nameTag kind right).toList.length + 1 + 1 + 1 + 1 from rfl, hrun₁, hrun₂, hrun₃]
    rfl

/-- A tag is read as it was written exactly if its closing delimiter is found where it stands. -/
theorem reads_nameTag_iff (unit : String) (kind : TagKind) (right : Option Whitespace) :
    d.Reads unit (d.nameTag kind right) [(kind.opens, ""), (.identifier, "x"),
        (kind.closes, String.ofList (marker right)), (.eof, "")] ↔
      d.shadowed kind right = false := by
  have hne : (d.closer kind).toList ≠ [] :=
    Delimiters.solid_of_check hd _ (by cases kind <;> simp [Delimiters.toList, Delimiters.closer])
  obtain ⟨m, ⟨closer, k⟩, hmarked, hfound⟩ := markedCloser?_closer hne right
  obtain ⟨hiff, hcloser⟩ := found_iff_not_shadowed hfound
  obtain ⟨ts, s, fuel, hts, hmode, hrest, htokens⟩ := tokenize_nameTag hd unit hmarked
  rw [← hiff]
  constructor
  · rintro ⟨all, hall, hlexemes⟩
    obtain rfl : ts ++ (s.run (fuel + 1)).1 = all := congrArg Prod.fst (htokens.symm.trans hall)
    rw [List.map_append, hts] at hlexemes
    simp only [List.cons_append, List.cons.injEq, Prod.mk.injEq, String.ofList_inj] at hlexemes
    exact ⟨hlexemes.2.2.1.2, hlexemes.2.2.1.1⟩
  · intro h
    obtain ⟨rfl, rfl⟩ := Prod.mk.inj (hcloser (hiff.mp h))
    obtain ⟨rfl, -⟩ := h
    have hempty : s.rest = [] := List.append_cancel_left (hrest.trans (List.append_nil _).symm)
    obtain ⟨t, ht, hrun⟩ := run_end hmode hempty
    exact ⟨ts ++ [t], by rw [htokens, hrun], by simp [hts, ht]⟩

/-- The body of the comment ends where its closing delimiter stands, which no space is part of. -/
theorem beforeDelimiter?_name :
    beforeDelimiter? d.commentEnd (' ' :: 'x' :: ' ' :: d.commentEnd.toList) =
      some [' ', 'x', ' '] := by
  have hmem : d.commentEnd ∈ d.toList := by simp [Delimiters.toList]
  have hspace : ∀ after, beginsWith (' ' :: after) d.commentEnd = false := fun after =>
    Bool.eq_false_iff.mpr fun h =>
      not_begins_blank hd hmem [] after (Nat.zero_le _) (beginsWith_iff.mp h)
  have hname : ∀ after, beginsWith ('x' :: ' ' :: after) d.commentEnd = false := fun after =>
    Bool.eq_false_iff.mpr fun h =>
      not_begins_blank hd hmem ['x'] after (Nat.le_refl _) (beginsWith_iff.mp h)
  have hend : beforeDelimiter? d.commentEnd d.commentEnd.toList = some [] := by
    obtain ⟨c, text, hchars⟩ :=
      List.exists_cons_of_ne_nil (Delimiters.solid_of_check hd _ hmem)
    have hbegins : beginsWith (c :: text) d.commentEnd = true :=
      beginsWith_iff.mpr (hchars ▸ List.prefix_rfl)
    rw [hchars, beforeDelimiter?, hbegins, if_pos rfl]
  rw [beforeDelimiter?, hspace, beforeDelimiter?, hname, beforeDelimiter?, hspace, hend]
  rfl

theorem reads_nameComment (unit : String) :
    d.Reads unit d.nameComment
      [(.commentStart, ""), (.comment, " x "), (.commentEnd, ""), (.eof, "")] := by
  have hmem : d.commentStart ∈ d.toList := by simp [Delimiters.toList]
  have hsource : d.nameComment.toList = d.commentStart.toList ++
      (marker none ++ ' ' :: 'x' :: ' ' :: d.commentEnd.toList) := by
    simp [Delimiters.nameComment, marker]
  obtain ⟨s, hs, hsd, hsmode, hsrest⟩ : ∃ s, Scanner.ofSource d.nameComment unit d = s ∧
      s.delimiters = d ∧ s.mode = .text ∧ s.rest = d.nameComment.toList :=
    ⟨_, rfl, rfl, rfl, rfl⟩
  rw [hsource] at hsrest
  have hopener : opener? s.delimiters s.rest = some (d.commentStart, .commentStart) := by
    rw [hsd, hsrest, opener?_append hd (by simp [Delimiters.openers])]
    exact congrArg (fun kind => some (d.commentStart, kind)) (if_pos rfl)
  have hnext := next_opener hsmode (Delimiters.solid_of_check hd _ hmem) hsrest hopener
  rw [if_pos rfl] at hnext
  obtain ⟨t₁, s₁, ht₁, hd₁, hmode₁, hrest₁, hrun₁⟩ :=
    run_emit (' ' :: 'x' :: ' ' :: d.commentEnd.toList) hnext
      (by rw [hsrest, List.append_assoc])
  have hbody : s₁.next = s₁.emit .comment [' ', 'x', ' '] [' ', 'x', ' '] (.commentEnd []) := by
    rw [next, hmode₁]
    dsimp only
    rw [nextComment, hd₁, hsd, hrest₁, beforeDelimiter?_name hd]
    rfl
  obtain ⟨t₂, s₂, ht₂, hd₂, hmode₂, hrest₂, hrun₂⟩ :=
    run_emit d.commentEnd.toList hbody hrest₁
  have hend : s₂.next = s₂.emit .commentEnd [] d.commentEnd.toList .text := by
    rw [next, hmode₂]
    dsimp only
    rw [nextCommentEnd, hd₂, hd₁, hsd]
    rfl
  obtain ⟨t₃, s₃, ht₃, -, hmode₃, hrest₃, hrun₃⟩ :=
    run_emit [] hend (by rw [hrest₂, List.append_nil])
  obtain ⟨t₄, ht₄, hrun₄⟩ := run_end hmode₃ hrest₃
  refine ⟨[t₁, t₂, t₃, t₄], ?_, by simp [ht₁, ht₂, ht₃, ht₄, marker]⟩
  rw [tokenize, hs, fuelFor, show 4 * d.nameComment.toList.length + 4 =
    4 * d.nameComment.toList.length + 1 + 1 + 1 + 1 from rfl, hrun₁, hrun₂, hrun₃, hrun₄]

end

/-! ## Expressions that are never closed -/

theorem closer?_of_markedCloser? {text m : List Char} {found : String × TokenKind}
    (h : markedCloser? d text = some (m, found)) : ∃ text', closer? d text' = some found := by
  rcases Option.or_eq_some_iff.mp h with hmarked | ⟨-, hplain⟩
  · split at hmarked
    · next c rest =>
        split at hmarked
        · obtain ⟨found', hcloser, hpair⟩ := Option.map_eq_some_iff.mp hmarked
          exact ⟨rest, hcloser.trans (congrArg some (Prod.mk.inj hpair).2)⟩
        · cases hmarked
    · cases hmarked
  · obtain ⟨found', hcloser, hpair⟩ := Option.map_eq_some_iff.mp hplain
    exact ⟨text, hcloser.trans (congrArg some (Prod.mk.inj hpair).2)⟩

theorem emit_eq_token {s s' : Scanner} {kind : TokenKind} {value raw : List Char} {mode : ScanMode}
    {t : Token} (h : s.emit kind value raw mode = .token t s') :
    t.kind = kind ∧ s'.mode = mode := by
  obtain ⟨rfl, rfl⟩ := ScanStep.token.inj h
  exact ⟨rfl, rfl⟩

/-- What is no closing delimiter leaves the scanner in the tag, or finished. -/
theorem nextInTag_of_text {s s' : Scanner} {t : Token} (h : s.nextInTag = .token t s')
    (hmode : s'.mode = .text) :
    ∃ m closer, markedCloser? s.delimiters s.rest = some (m, closer, t.kind) := by
  have hstays : ∀ {s₀ : Scanner} {kind : TokenKind} {value raw : List Char} {mode : ScanMode},
      s₀.emit kind value raw mode = .token t s' → mode = .tag ∨ mode = .finished → False := by
    intro s₀ kind value raw mode h hother
    rw [← (emit_eq_token h).2, hmode] at hother
    rcases hother with h | h <;> cases h
  unfold nextInTag at h
  split at h
  · exact (hstays h (.inr rfl)).elim
  · split at h
    · next m closer kind hfound => exact ⟨m, closer, (emit_eq_token h).1 ▸ hfound⟩
    · split at h
      · cases h
      · split at h
        · exact (hstays h (.inl rfl)).elim
        · split at h
          · exact (hstays h (.inl rfl)).elim
          · split at h
            · unfold nextString at h
              split at h
              · cases h
              · exact (hstays h (.inl rfl)).elim
            · unfold nextSign at h
              split at h
              · exact (hstays h (.inl rfl)).elim
              · split at h
                · exact (hstays h (.inl rfl)).elim
                · cases h

/-- A closing delimiter of an expression is read where none of blocks is found. -/
theorem exprEnd_found {s s' : Scanner} {t : Token} (hd : s.delimiters.Solid) (hs : s.Consistent)
    (h : s.next = .token t s') (hkind : t.kind = .exprEnd) :
    ∃ closer text, closer? s.delimiters text = some (closer, .exprEnd) := by
  obtain ⟨hmode, hmode'⟩ : s.mode = .tag ∧ s'.mode = .text := by
    obtain ⟨gap, hemits⟩ : s.Steps (.token t s') := h ▸ next_steps hd hs
    have hturns := hkind ▸ hemits.turns
    generalize s.mode = mode, s'.mode = mode' at hturns
    cases hturns with
    | openTag h => rcases h with h | h <;> cases h
    | inner h => cases h
    | closeTag => exact ⟨rfl, rfl⟩
  rw [next, hmode] at h
  obtain ⟨m, closer, hfound⟩ := nextInTag_of_text h hmode'
  obtain ⟨text, hcloser⟩ := closer?_of_markedCloser? hfound
  exact ⟨closer, text, hkind ▸ hcloser⟩

/-- Where the delimiter of blocks begins that of expressions, the latter is never found. -/
theorem run_not_exprEnd {d : Delimiters} (hsolid : d.Solid)
    (hbegins : d.blockEnd.toList <+: d.exprEnd.toList) (fuel : Nat) :
    ∀ s : Scanner, s.delimiters = d → s.Consistent → ∀ t ∈ (s.run fuel).1, t.kind ≠ .exprEnd := by
  induction fuel with
  | zero => exact fun s _ _ => List.forall_mem_nil _
  | succ fuel ih =>
      intro s hsd hs
      have hstep := next_steps (hsd ▸ hsolid) hs
      rw [run]
      split
      · exact List.forall_mem_nil _
      · exact List.forall_mem_nil _
      · next t s' hnext =>
          rw [hnext] at hstep
          obtain ⟨gap, hemits⟩ := hstep
          refine List.forall_mem_cons.mpr
            ⟨fun hkind => ?_, ih s' (hemits.delimiters.trans hsd) hemits.consistent⟩
          obtain ⟨closer, text, hcloser⟩ := exprEnd_found (hsd ▸ hsolid) hs hnext hkind
          rw [hsd, closer?_eq_some_iff] at hcloser
          rcases hcloser with ⟨-, hfound⟩ | ⟨hnot, hexpr, -⟩
          · cases (Prod.mk.inj hfound).2
          · exact hnot (hbegins.trans hexpr)

end Scanner

/-! ## What the check is good for -/

/-- With delimiters that pass the check, a comment is read as it is written, and so is any other tag
if no other closing delimiter shadows its own. A marker in front of the delimiter is enough for
that, save in expressions whose closing delimiter begins with that of blocks: of these, none is ever
closed, whatever the source. -/
theorem check_usable {d : Delimiters} (hd : d.check = .ok ()) (unit : String) :
    d.Reads unit d.nameComment
        [(.commentStart, ""), (.comment, " x "), (.commentEnd, ""), (.eof, "")] ∧
      (∀ kind right, d.Reads unit (d.nameTag kind right) [(kind.opens, ""), (.identifier, "x"),
          (kind.closes, String.ofList (Whitespace.marker right)), (.eof, "")] ↔
        d.shadowed kind right = false) ∧
      ((∀ source, ∀ t ∈ (tokenize source unit d).1, t.kind ≠ .exprEnd) ↔
        d.blockEnd.toList <+: d.exprEnd.toList) := by
  refine ⟨Scanner.reads_nameComment hd unit, fun kind right =>
    Scanner.reads_nameTag_iff hd unit kind right, fun hnever => ?_, fun hbegins source => ?_⟩
  · by_contra hnot
    have hfound : d.shadowed .output (some .suppress) = false :=
      (Bool.or_false _).trans (Bool.eq_false_iff.mpr (mt Scanner.beginsWith_iff.mp hnot))
    obtain ⟨ts, htokens, hlexemes⟩ := (Scanner.reads_nameTag_iff hd unit _ _).mpr hfound
    obtain ⟨t, ht, hlexeme⟩ : ∃ t ∈ ts, t.lexeme = (.exprEnd, "-") :=
      List.mem_map.mp (hlexemes ▸ by simp [TagKind.closes, Whitespace.marker])
    exact hnever _ t (by rw [htokens]; exact ht) (Prod.mk.inj hlexeme).1
  · refine Scanner.run_not_exprEnd (Delimiters.solid_of_check hd) hbegins _ _ rfl ?_
    intro marker hmode
    cases hmode

/-- A closing delimiter of blocks that is the one of expressions behind a marker has to be marked
itself. -/
theorem check_usable_of_marked :
    let d : Delimiters := { blockEnd := "-\x7d\x7d" }
    d.check = .ok () ∧
      ¬ d.Reads "page" "\x7b% x -\x7d\x7d"
        [(.blockStart, ""), (.identifier, "x"), (.blockEnd, ""), (.eof, "")] ∧
      d.Reads "page" "\x7b% x --\x7d\x7d"
        [(.blockStart, ""), (.identifier, "x"), (.blockEnd, "-"), (.eof, "")] ∧
      d.Reads "page" "\x7b\x7b x \x7d\x7d"
        [(.exprStart, ""), (.identifier, "x"), (.exprEnd, ""), (.eof, "")] := by
  intro d
  have hd : d.check = .ok () := by decide +kernel
  have htags := (check_usable hd "page").2.1
  exact ⟨hd, mt (htags .block none).mp (by decide), (htags .block (some .suppress)).mpr (by decide),
    (htags .output none).mpr (by decide)⟩

/-- The delimiter that closes blocks and expressions alike passes the check, and then no expression
is read as it is written. -/
theorem check_not_usable_of_shared :
    let d : Delimiters := { exprEnd := "%\x7d" }
    d.check = .ok () ∧
      ¬ d.Reads "page" "\x7b\x7b x %\x7d"
        [(.exprStart, ""), (.identifier, "x"), (.exprEnd, ""), (.eof, "")] := by
  intro d
  have hd : d.check = .ok () := by decide +kernel
  exact ⟨hd, mt (Scanner.reads_nameTag_iff hd "page" .output none).mp (by decide)⟩

end TemplateCompiler
