import TemplateCompiler.Proofs.Coverage
import TemplateCompiler.Proofs.KeptTexts
import TemplateCompiler.Proofs.Stretches
import TemplateCompiler.Proofs.UsableDelimiters

/-!
# The structure of a token sequence

Whatever the source, the kinds of its tokens spell a word of one small grammar (`KindWord`): texts,
comments and tags by turns, and the end. A tag may be left open at the end of the source, and
nowhere else; a fault cuts the word off.

The words follow from the modes of the scanner (`ScanMode.Follows`), which know of everything but
that no two texts stand side by side; for that there is `Token.Borders`. The induction is on the
number of tokens, since a tag takes many of them at once.

Where the next tag opens is settled by the text alone. `nearest?` looks for the openers one after
the other and keeps the nearest; as no opener begins another, two of them are never equally near, so
the order in which they are tried makes no difference (`nearest?_eq`).
-/

namespace TemplateCompiler

/-! ## Words -/

/-- A comment, or a tag from its opening delimiter to a closing one. Either closing delimiter ends
either kind of tag. -/
inductive KindSegment : List TokenKind → Prop
  | comment : KindSegment [.commentStart, .comment, .commentEnd]
  | tag {opening closing inner} (hopen : opening = .blockStart ∨ opening = .exprStart)
      (hinner : ∀ kind ∈ inner, kind.isInner) (hclose : closing = .blockEnd ∨ closing = .exprEnd) :
      KindSegment (opening :: inner ++ [closing])

/-- A text or none. -/
inductive KindLead : List TokenKind → Prop
  | none : KindLead []
  | text : KindLead [.text]

/-- What stands behind a text or none: segments, each with a text behind it or none, and the end.
The last tag may be missing its closing delimiter. -/
inductive KindBody : List TokenKind → Prop
  | done : KindBody [.eof]
  | unclosed {opening inner} (hopen : opening = .blockStart ∨ opening = .exprStart)
      (hinner : ∀ kind ∈ inner, kind.isInner) : KindBody (opening :: inner ++ [.eof])
  | segment {segment lead rest} (hsegment : KindSegment segment) (hlead : KindLead lead)
      (hrest : KindBody rest) : KindBody (segment ++ (lead ++ rest))

/-- The kinds of the tokens of a whole source. -/
inductive KindWord : List TokenKind → Prop
  | intro {lead body} (hlead : KindLead lead) (hbody : KindBody body) : KindWord (lead ++ body)

section

variable {P Q : List TokenKind → Prop} {front kinds : List TokenKind}

/-- The kinds can be completed to what `P` holds of, and need no more if the end is among them. -/
def Completes (P : List TokenKind → Prop) (kinds : List TokenKind) : Prop :=
  ∃ more, P (kinds ++ more) ∧ (.eof ∈ kinds → more = [])

theorem Completes.of_append (more : List TokenKind) (h : P (kinds ++ more)) (heof : .eof ∉ kinds) :
    Completes P kinds :=
  ⟨more, h, fun hmem => absurd hmem heof⟩

theorem Completes.of_all (h : P kinds) : Completes P kinds :=
  ⟨[], by rwa [List.append_nil], fun _ => rfl⟩

/-- In front of kinds that can be completed there may be others, but not the end. -/
theorem Completes.behind (h : Completes P kinds) (hfront : .eof ∉ front)
    (hQ : ∀ rest, P rest → Q (front ++ rest)) : Completes Q (front ++ kinds) := by
  obtain ⟨more, hmore, hend⟩ := h
  refine ⟨more, ?_, fun hmem => hend ((List.mem_append.mp hmem).resolve_left hfront)⟩
  rw [List.append_assoc]
  exact hQ _ hmore

theorem KindLead.eof_notMem (h : KindLead kinds) : .eof ∉ kinds := by
  cases h <;> decide

theorem KindSegment.eof_notMem (h : KindSegment kinds) : .eof ∉ kinds := by
  cases h with
  | comment => decide
  | tag hopen hinner hclose =>
      intro hmem
      simp only [List.mem_append, List.mem_cons, List.not_mem_nil, or_false] at hmem
      rcases hmem with (rfl | hmem) | rfl
      · rcases hopen with h | h <;> cases h
      · cases hinner _ hmem
      · rcases hclose with h | h <;> cases h

end

section

variable {ts : List Token}

/-- Up to the next border there is a text or none. -/
theorem ScanMode.Follows.cut_text (h : ScanMode.text.Follows ts)
    (hchain : ts.IsChain Token.Borders) :
    ∃ front rest, ts = front ++ rest ∧ KindLead (front.map (·.kind)) ∧
      ScanMode.text.Follows rest ∧ rest.IsChain Token.Borders ∧
      ∀ t ∈ rest.head?, t.kind ≠ .text := by
  cases ts with
  | nil => exact ⟨[], [], rfl, .none, h, hchain, nofun⟩
  | cons t ts =>
      by_cases ht : t.kind = .text
      · obtain ⟨hfirst, hrest⟩ := List.isChain_cons.mp hchain
        refine ⟨[t], ts, rfl, by rw [List.map_singleton, ht]; exact .text, h.behind_text ht, hrest,
          fun u hu hutext => ?_⟩
        rcases (hfirst u hu).ahead ht with hopen | heof
        · rw [hutext] at hopen
          cases hopen
        · cases hutext.symm.trans heof
      · refine ⟨[], t :: ts, rfl, .none, h, hchain, ?_⟩
        rintro _ ⟨⟩
        exact ht

theorem ScanMode.Follows.comment_cut {p : Position} (h : (ScanMode.comment p).Follows ts) :
    (∃ body close more, ts = body :: close :: more ∧ body.kind = .comment ∧
        close.kind = .commentEnd ∧ ScanMode.text.Follows more) ∨
      ts.map (·.kind) <+: [.comment] := by
  cases ts with
  | nil => exact .inr List.nil_prefix
  | cons body ts =>
      obtain ⟨hbody, marker, h⟩ := h.of_comment
      cases ts with
      | nil =>
          rw [List.map_singleton, hbody]
          exact .inr List.prefix_rfl
      | cons close more =>
          obtain ⟨hclose, h⟩ := h.of_commentEnd
          exact .inl ⟨body, close, more, rfl, hbody, hclose, h⟩

/-! ## Every sequence of tokens -/

/-- A tag that is not closed ends the word, or it is cut off. -/
theorem Completes.of_unclosed {t : Token} {us rest : List Token}
    (hopen : t.kind = .blockStart ∨ t.kind = .exprStart) (hus : ∀ u ∈ us, u.kind.isInner)
    (hrest : ∀ u ∈ rest, u.kind = .eof ∧ rest = [u]) :
    Completes KindBody ((t :: (us ++ rest)).map (·.kind)) := by
  have hinner : ∀ kind ∈ us.map (·.kind), kind.isInner := by simpa using hus
  have hbody := KindBody.unclosed hopen hinner
  rw [List.map_cons, List.map_append]
  cases rest with
  | nil =>
      rw [List.map_nil, List.append_nil]
      refine .of_append [.eof] hbody fun hmem => ?_
      rcases List.mem_cons.mp hmem with heof | hmem
      · rcases hopen with h | h <;> cases heof.trans h
      · cases hinner _ hmem
  | cons u more =>
      obtain ⟨hu, hmore⟩ := hrest u List.mem_cons_self
      rw [hmore, List.map_singleton, hu]
      exact .of_all hbody

/-- Read from between two tags on, the kinds of the tokens begin a word. -/
theorem ScanMode.Follows.completes (h : ScanMode.text.Follows ts)
    (hchain : ts.IsChain Token.Borders) : Completes KindWord (ts.map (·.kind)) := by
  induction hlength : ts.length using Nat.strong_induction_on generalizing ts with
  | _ n ih =>
      obtain ⟨front, rest, rfl, hlead, h, hchain, hhead⟩ := h.cut_text hchain
      rw [List.map_append]
      refine Completes.behind (P := KindBody) ?_ hlead.eof_notMem fun _ hbody => .intro hlead hbody
      -- behind a segment stands a shorter sequence
      have hsegment : ∀ segment {more : List Token}, rest = segment ++ more → segment ≠ [] →
          KindSegment (segment.map (·.kind)) → ScanMode.text.Follows more →
          Completes KindBody (rest.map (·.kind)) := by
        rintro segment more rfl hne hkinds hmore
        have hpos := List.length_pos_iff.mpr hne
        have hshorter : more.length < n := by
          simp only [List.length_append] at hlength
          omega
        rw [List.map_append]
        refine (ih more.length hshorter hmore hchain.right_of_append rfl).behind
          hkinds.eof_notMem ?_
        rintro _ ⟨hlead, hbody⟩
        exact .segment hkinds hlead hbody
      cases rest with
      | nil => exact .of_append [.eof] .done (by decide)
      | cons t ts =>
          rcases h.of_text with ⟨ht, -⟩ | ⟨hopen, htag⟩ | ⟨ht, p, hcomment⟩ | ⟨ht, rfl⟩
          · exact absurd ht (hhead t rfl)
          · obtain ⟨us, rest, rfl, hus, ⟨close, more, rfl, hclose, hmore⟩ | hrest⟩ := htag.tag_cut
            · refine hsegment (t :: us ++ [close]) (by simp) (by simp) ?_ hmore
              rw [List.map_append]
              exact .tag hopen (by simpa using hus) hclose
            · exact .of_unclosed hopen hus hrest
          · rcases hcomment.comment_cut with ⟨body, close, more, rfl, hbody, hclose, hmore⟩ | hcut
            · refine hsegment [t, body, close] rfl (by simp) ?_ hmore
              simp only [List.map_cons, ht, hbody, hclose]
              exact .comment
            · obtain ⟨missing, hmissing⟩ := hcut
              rw [List.map_cons, ht]
              refine .of_append (missing ++ [.commentEnd, .eof]) ?_ fun hmem => ?_
              · rw [List.cons_append, ← List.append_assoc, hmissing]
                exact .segment .comment .none .done
              · rcases List.mem_cons.mp hmem with h | hmem
                · cases h
                · have hall := List.mem_append_left missing hmem
                  rw [hmissing] at hall
                  cases List.mem_singleton.mp hall
          · rw [List.map_singleton, ht]
            exact .of_all .done

end

/-! ## Texts -/

namespace Scanner

theorem opener?_inside {d : Delimiters} {text : List Char} {n : Nat}
    (h : n < (beforeOpener d text).length) : opener? d (text.drop n) = none := by
  induction text generalizing n with
  | nil => cases h
  | cons c rest ih =>
      rw [beforeOpener] at h
      split at h
      · cases h
      · next hno =>
          cases n with
          | zero => rwa [List.drop_zero, ← Option.not_isSome_iff_eq_none]
          | succ n => exact ih (Nat.lt_of_succ_lt_succ h)

/-- A text that is read is what stands before the next opener. -/
theorem text_of_next {s s' : Scanner} {t : Token} (hmode : s.mode = .text)
    (h : s.next = .token t s') (ht : t.kind = .text) :
    t.value = t.raw ∧ t.raw.toList = beforeOpener s.delimiters s.rest := by
  rw [next_text hmode] at h
  by_cases hrest : s.rest = []
  · rw [nextText, hrest] at h
    cases h
    cases ht
  · rcases nextText_inv hrest h with ⟨opener, kind, hkind, hopens⟩ | ⟨text, -, hbefore, -, hemit⟩
    · cases hopens
      obtain ⟨-, -, rfl⟩ := opener?_eq_some hkind
      have hopen := openerKind_isOpener s.delimiters opener
      rw [show openerKind s.delimiters opener = .text from ht] at hopen
      cases hopen
    · refine ⟨?_, hbefore ▸ raw_of_emit hemit⟩
      cases hemit
      rfl

end Scanner

/-- A text among the tokens of a source is not empty, and no opener starts in it, be it one that
ends behind it. -/
theorem text_plain {d : Delimiters} (hd : d.check = .ok ()) {source unit : String} {t : Token}
    (ht : t ∈ (tokenize source unit d).1) (htext : t.kind = .text) :
    t.value = t.raw ∧ t.raw ≠ "" ∧
      ∀ n, t.span.start.offset ≤ n → n < t.span.stop.offset → ∀ opener ∈ d.openers,
        ¬ opener.toList <+: source.toList.drop n := by
  have hsolid := Delimiters.solid_of_check hd
  have hs : (Scanner.ofSource source unit d).Consistent := nofun
  obtain ⟨before, after, htokens⟩ := List.append_of_mem ht
  obtain ⟨s', hreads⟩ := Scanner.reads_of_tokenize
    (show _ = (before ++ [t]) ++ after by simpa using htokens)
  obtain ⟨s, hbefore, hreads⟩ := hreads.split
  have hreached := hbefore.reached hsolid hs
  obtain ⟨done, hdone, hplace⟩ := hreached.place
  obtain ⟨s₁, gap, hnext, he, -⟩ := hreads.emits (hreached.delimiters ▸ hsolid) hreached.consistent
  have hmode : s.mode = .text := by
    have hturns := he.turns
    rw [htext] at hturns
    exact hturns.betweenTags.1
  obtain rfl : gap = [] :=
    Classical.byContradiction fun hgap => nomatch hmode.symm.trans (he.inTag hgap)
  obtain ⟨hvalue, hraw⟩ := Scanner.text_of_next hmode hnext htext
  have hstart : t.span.start.offset = done.length := by
    rw [he.span]
    exact (congrArg Position.offset hplace).trans
      (congrArg Position.offset (Position.behind_advance [] done))
  have hstop : t.span.stop.offset = done.length + t.raw.toList.length := by
    rw [← hstart, he.span]
    show s₁.position.offset = s.position.offset + _
    rw [he.place, Position.advance_offset]
    rfl
  refine ⟨hvalue, fun hempty => he.solid (by simp [htext]) (by simp [htext]) (by simp [hempty]),
    fun n hfirst hlast => ?_⟩
  have hinside : n - done.length < (Scanner.beforeOpener d s.rest).length := by
    rw [hreached.delimiters] at hraw
    rw [show Scanner.beforeOpener d s.rest = t.raw.toList from hraw.symm]
    omega
  have hdrop : source.toList.drop n = s.rest.drop (n - done.length) := by
    have hbehind : done.drop n = [] := List.drop_eq_nil_of_le (hstart ▸ hfirst)
    rw [show source.toList = done ++ s.rest from hdone, List.drop_append, hbehind, List.nil_append]
  rw [hdrop]
  exact Scanner.opener?_eq_none_iff.mp (Scanner.opener?_inside hinside)

/-! ## The nearest opener -/

theorem Delimiters.mem_of_opener {d : Delimiters} {opener : String} (h : opener ∈ d.openers) :
    opener ∈ d.toList := by
  simp only [openers, toList, List.mem_cons, List.not_mem_nil, or_false] at h ⊢
  rcases h with rfl | rfl | rfl <;> simp

namespace Scanner

/-- How far ahead a delimiter stands. -/
def distance? (text : List Char) (delimiter : String) : Option Nat :=
  (beforeDelimiter? delimiter text).map List.length

/-- The nearest of some openers and how far ahead it stands. They are looked for one after the
other, and of those equally near the first is kept. -/
def nearest? (openers : List String) (text : List Char) : Option (Nat × String) :=
  openers.foldl (fun best opener =>
    match distance? text opener with
    | none => best
    | some n => if best.all (n < ·.1) then some (n, opener) else best) none

/-- The step that reads a text, which may not hold a NUL. -/
def readText (s : Scanner) (text : List Char) : ScanStep :=
  if text.contains '\x00' then
    let place := s.position.advance (text.takeWhile (· ≠ '\x00'))
    s.fail .nulCharacter place place
  else s.emit .text text text .text

/-- The step between tags, with the openers tried in the order `openers`: the nearest of them is
looked for, and the text up to it is read if there is one. -/
def nextTextTrying (openers : List String) (s : Scanner) : ScanStep :=
  if s.rest.isEmpty then s.finish
  else
    match nearest? openers s.rest with
    | none => s.readText s.rest
    | some (0, opener) => s.nextOpener opener (openerKind s.delimiters opener)
    | some (n, _) => s.readText (s.rest.take n)

theorem begins_of_distance? {text : List Char} {delimiter : String} {n : Nat}
    (h : distance? text delimiter = some n) : delimiter.toList <+: text.drop n := by
  obtain ⟨before, hbefore, rfl⟩ := Option.map_eq_some_iff.mp h
  obtain ⟨after, rfl⟩ := beforeDelimiter?_eq_some hbefore
  rw [List.append_assoc, List.drop_left]
  exact List.prefix_append _ _

theorem distance?_of_begins {text : List Char} {delimiter : String}
    (h : delimiter.toList <+: text) : distance? text delimiter = some 0 := by
  cases text <;> rw [distance?, beforeDelimiter?, if_pos (beginsWith_iff.mpr h)] <;> rfl

/-- A delimiter is found where it stands, if not before. -/
theorem exists_distance? {text : List Char} {delimiter : String} {n : Nat}
    (h : delimiter.toList <+: text.drop n) : ∃ m ≤ n, distance? text delimiter = some m := by
  induction text generalizing n with
  | nil => exact ⟨0, Nat.zero_le n, distance?_of_begins (List.drop_nil ▸ h)⟩
  | cons c rest ih =>
      by_cases hbegins : delimiter.toList <+: c :: rest
      · exact ⟨0, Nat.zero_le n, distance?_of_begins hbegins⟩
      · cases n with
        | zero => exact absurd h hbegins
        | succ n =>
            obtain ⟨m, hm, hrest⟩ := ih h
            obtain ⟨before, hbefore, rfl⟩ := Option.map_eq_some_iff.mp hrest
            refine ⟨before.length + 1, Nat.succ_le_succ hm, ?_⟩
            rw [distance?, beforeDelimiter?, if_neg (mt beginsWith_iff.mp hbegins), hbefore]
            rfl

/-- What is kept of the openers tried so far. -/
structure Nearest (openers : List String) (text : List Char) (best : Option (Nat × String)) :
    Prop where
  found : ∀ n opener, best = some (n, opener) → opener ∈ openers ∧ distance? text opener = some n
  least : ∀ opener ∈ openers, ∀ m, distance? text opener = some m →
    ∃ n nearer, best = some (n, nearer) ∧ n ≤ m

/-- One more opener is tried, which takes the place of the nearest if it is nearer. -/
theorem Nearest.step {openers : List String} {text : List Char} {best : Option (Nat × String)}
    (h : Nearest openers text best) (opener : String) :
    Nearest (openers ++ [opener]) text (match distance? text opener with
      | none => best
      | some n => if best.all (n < ·.1) then some (n, opener) else best) := by
  obtain ⟨hfound, hleast⟩ := h
  have hkept : ∀ n other, best = some (n, other) →
      other ∈ openers ++ [opener] ∧ distance? text other = some n := fun n other hbest =>
    (hfound n other hbest).imp_left (List.mem_append_left _)
  cases hdistance : distance? text opener with
  | none =>
      refine ⟨hkept, fun other hmem m hother => ?_⟩
      rcases List.mem_append.mp hmem with hmem | hmem
      · exact hleast other hmem m hother
      · obtain rfl := List.mem_singleton.mp hmem
        cases hdistance.symm.trans hother
  | some n =>
      dsimp only
      split
      · next hnearer =>
          refine ⟨?_, fun other hmem m hother => ⟨n, opener, rfl, ?_⟩⟩
          · rintro _ _ ⟨⟩
            exact ⟨by simp, hdistance⟩
          · rcases List.mem_append.mp hmem with hmem | hmem
            · obtain ⟨k, nearest, rfl, hle⟩ := hleast other hmem m hother
              have hlt : n < k := by simpa using hnearer
              omega
            · obtain rfl := List.mem_singleton.mp hmem
              exact (Option.some.inj (hdistance.symm.trans hother)).le
      · next hnot =>
          refine ⟨hkept, fun other hmem m hother => ?_⟩
          rcases List.mem_append.mp hmem with hmem | hmem
          · exact hleast other hmem m hother
          · obtain rfl := List.mem_singleton.mp hmem
            obtain rfl := Option.some.inj (hdistance.symm.trans hother)
            cases best with
            | none => exact absurd rfl hnot
            | some found =>
                obtain ⟨k, nearest⟩ := found
                exact ⟨k, nearest, rfl, by simpa using hnot⟩

theorem nearest?_nearest (openers : List String) (text : List Char) :
    Nearest openers text (nearest? openers text) := by
  induction openers using List.reverseRecOn with
  | nil => exact ⟨nofun, nofun⟩
  | append_singleton openers opener ih =>
      rw [nearest?, List.foldl_append]
      exact ih.step opener

/-- Of the openers that pass the check, the nearest is the one that the text up to the next opener
ends at, in whatever order they are tried. -/
theorem nearest?_eq {d : Delimiters} (hd : d.check = .ok ()) {openers : List String}
    (horder : openers.Perm d.openers) (text : List Char) :
    nearest? openers text = (opener? d (text.drop (beforeOpener d text).length)).map
      fun found => ((beforeOpener d text).length, found.1) := by
  obtain ⟨hfound, hleast⟩ := nearest?_nearest openers text
  -- what is found stands no nearer than the next opener
  have hfar : ∀ m other, nearest? openers text = some (m, other) →
      other ∈ d.openers ∧ other.toList <+: text.drop m ∧ (beforeOpener d text).length ≤ m := by
    intro m other hnearest
    obtain ⟨hmem, hdistance⟩ := hfound m other hnearest
    have hother := begins_of_distance? hdistance
    refine ⟨horder.mem_iff.mp hmem, hother, ?_⟩
    by_contra hlt
    have hnone := opener?_eq_none_iff.mp (opener?_inside (Nat.lt_of_not_le hlt))
    exact hnone other (horder.mem_iff.mp hmem) hother
  cases hopener : opener? d (text.drop (beforeOpener d text).length) with
  | none =>
      have hend : text.drop (beforeOpener d text).length = [] :=
        (beforeOpener_ends d text).resolve_right fun ⟨found, h⟩ => nomatch hopener.symm.trans h
      refine Option.eq_none_iff_forall_ne_some.mpr fun ⟨m, other⟩ hnearest => ?_
      obtain ⟨hmem, hother, hle⟩ := hfar m other hnearest
      have hempty : text.drop m = [] :=
        List.drop_eq_nil_of_le ((List.drop_eq_nil_iff.mp hend).trans hle)
      rw [hempty, List.prefix_nil] at hother
      exact Delimiters.solid_of_check hd other (Delimiters.mem_of_opener hmem) hother
  | some found =>
      obtain ⟨opener, kind⟩ := found
      obtain ⟨hmem, hbegins, -⟩ := opener?_eq_some hopener
      obtain ⟨n, hn, hdistance⟩ := exists_distance? hbegins
      obtain ⟨m, other, hnearest, hle⟩ := hleast opener (horder.mem_iff.mpr hmem) n hdistance
      obtain ⟨hmem', hother, hle'⟩ := hfar m other hnearest
      obtain rfl : m = (beforeOpener d text).length := Nat.le_antisymm (hle.trans hn) hle'
      obtain rfl : opener = other := Delimiters.check_apart hd hmem hmem'
        (List.prefix_or_prefix_of_prefix hbegins hother)
      exact hnearest

/-- Where no opener stands, the text up to the next one is read. -/
theorem nextText_of_none {s : Scanner} (hs : s.rest ≠ [])
    (h : opener? s.delimiters s.rest = none) :
    s.nextText = s.readText (beforeOpener s.delimiters s.rest) ∧
      beforeOpener s.delimiters s.rest ≠ [] := by
  obtain ⟨c, rest, hrest⟩ := List.exists_cons_of_ne_nil hs
  rw [hrest] at h
  refine ⟨?_, ?_⟩
  · rw [nextText, hrest]
    dsimp only
    rw [h]
    rfl
  · rw [hrest, beforeOpener, h]
    exact List.cons_ne_nil _ _

theorem beforeOpener_of_some {d : Delimiters} {text : List Char} {found : String × TokenKind}
    (h : opener? d text = some found) : beforeOpener d text = [] := by
  cases text with
  | nil => rfl
  | cons c rest =>
      rw [beforeOpener, h]
      rfl

/-- Between tags, the openers may be tried in any order. -/
theorem nextTextTrying_eq {s : Scanner} (hd : s.delimiters.check = .ok ()) {openers : List String}
    (horder : openers.Perm s.delimiters.openers) : s.nextTextTrying openers = s.nextText := by
  unfold nextTextTrying
  by_cases hrest : s.rest = []
  · rw [nextText, hrest]
    rfl
  rw [if_neg (by simpa using hrest)]
  have hnearest := nearest?_eq hd horder s.rest
  cases hopener : opener? s.delimiters s.rest with
  | some found =>
      obtain ⟨opener, kind⟩ := found
      obtain ⟨-, -, rfl⟩ := opener?_eq_some hopener
      rw [beforeOpener_of_some hopener, List.length_nil, List.drop_zero, hopener] at hnearest
      rw [hnearest, nextText_of_opener hrest hopener]
      rfl
  | none =>
      obtain ⟨hsame, hne⟩ := nextText_of_none hrest hopener
      obtain ⟨after, hafter⟩ := beforeOpener_begins s.delimiters s.rest
      have hends := beforeOpener_ends s.delimiters s.rest
      generalize beforeOpener s.delimiters s.rest = text at hnearest hends hafter hne hsame
      rw [← hafter, List.drop_left] at hends hnearest
      rw [hsame, ← hafter, hnearest]
      -- the text reaches up to the opener that is found, or up to the end
      cases hnext : opener? s.delimiters after with
      | none =>
          have hend : after = [] := by
            rcases hends with hnil | ⟨found, hfound⟩
            · exact hnil
            · cases hnext.symm.trans hfound
          rw [hend] at hnext ⊢
          rw [List.append_nil]
          rfl
      | some found =>
          obtain ⟨n, hn⟩ := Nat.exists_eq_succ_of_ne_zero (mt List.length_eq_zero_iff.mp hne)
          rw [Option.map_some, hn]
          show s.readText ((text ++ after).take (n + 1)) = s.readText text
          rw [← Nat.succ_eq_add_one, ← hn, List.take_left]

end Scanner

/-! ## The whole structure -/

/-- What is so of the tokens of every source, up to the end or to a fault. -/
structure WellTagged (d : Delimiters) (source : List Char) (ts : List Token)
    (fault : Option LexicalFault) : Prop where
  kinds : ∃ missing, KindWord (ts.map (·.kind) ++ missing)
  complete : fault = none → KindWord (ts.map (·.kind))
  texts : ∀ t ∈ ts, t.kind = .text → t.value = t.raw ∧ t.raw ≠ ""
  plain : ∀ t ∈ ts, t.kind = .text → ∀ n, t.span.start.offset ≤ n → n < t.span.stop.offset →
    ∀ opener ∈ d.openers, ¬ opener.toList <+: source.drop n

/-- With delimiters that pass the check, the tokens of every source are texts, comments and tags by
turns. Texts are not empty and no opener starts in them, and between tags the nearest opener is the
same in whatever order the three are tried. -/
theorem tokenize_wellTagged {d : Delimiters} (hd : d.check = .ok ()) (source unit : String) :
    WellTagged d source.toList (tokenize source unit d).1 (tokenize source unit d).2 ∧
      ∀ openers, openers.Perm d.openers →
        (∀ text, Scanner.nearest? openers text = Scanner.nearest? d.openers text) ∧
          ∀ s : Scanner, s.delimiters = d → s.nextTextTrying openers = s.nextText := by
  obtain ⟨missing, hword, hend⟩ :=
    (tokenize_follows hd source unit).completes (tokenize_borders hd source unit)
  refine ⟨⟨⟨missing, hword⟩, fun hnone => ?_, fun t ht htext => ?_, fun t ht htext => ?_⟩,
    fun openers horder => ⟨fun text => ?_, ?_⟩⟩
  · obtain ⟨t, ht, heof, -⟩ := (tokenize_covers hd source unit).last hnone
    have hmem : .eof ∈ (tokenize source unit d).1.map (·.kind) :=
      List.mem_map.mpr ⟨t, List.mem_of_getLast? ht, heof⟩
    rwa [hend hmem, List.append_nil] at hword
  · obtain ⟨hvalue, hne, -⟩ := text_plain hd ht htext
    exact ⟨hvalue, hne⟩
  · exact (text_plain hd ht htext).2.2
  · rw [Scanner.nearest?_eq hd horder, Scanner.nearest?_eq hd (List.Perm.refl _)]
  · rintro s rfl
    exact Scanner.nextTextTrying_eq hd horder

/-- Three openers that begin alike, a block that is closed as an expression, and an expression that
is not closed. -/
theorem wellTagged_of_open_tag :
    let d : Delimiters := ⟨"<%", "%>", "<=", "=>", "<!--", "-->"⟩
    let source := "a < b<!-- c --><% if x =><= y"
    d.check = .ok () ∧
      (tokenize source "page" d).1.map (·.kind) =
        [.text, .commentStart, .comment, .commentEnd, .blockStart, .keyword, .identifier, .exprEnd,
          .exprStart, .identifier, .eof] ∧
      WellTagged d source.toList (tokenize source "page" d).1 (tokenize source "page" d).2 ∧
      ∀ s : Scanner, s.delimiters = d →
        s.nextTextTrying [d.commentStart, d.exprStart, d.blockStart] = s.nextText := by
  intro d source
  have hd : d.check = .ok () := by decide +kernel
  obtain ⟨htagged, horder⟩ := tokenize_wellTagged hd source "page"
  exact ⟨hd, by decide +kernel, htagged, (horder _ (List.reverse_perm d.openers)).2⟩

end TemplateCompiler
