import TemplateCompiler.Proofs.FileNames
import TemplateCompiler.Proofs.PlacedCalls
import TemplateCompiler.Report

/-!
# Excerpts point at the right character

A report finds the line to quote by its number, and where the carets go by a column. Both were
counted by the scanner, while the report splits the source anew. `LineAt` says which line an offset
is on without counting anything. True positions have the number of that line and columns from its
start, so a report of a span with true ends quotes it and points into it.
-/

namespace TemplateCompiler.Report

/-! ## The line of an offset -/

/-- The offset is on `line`, or where it ends. The line stands between `before` and `after`. -/
structure LineAt (text : List Char) (offset : Nat) (before line after : List Char) : Prop where
  split : text = before ++ line ++ after
  starts : ∀ c ∈ before.getLast?, c = '\n'
  unbroken : '\n' ∉ line
  ends : ∀ c ∈ after.head?, c = '\n'
  start_le : before.length ≤ offset
  le_stop : offset ≤ before.length + line.length

theorem exists_lineAt {text : List Char} {offset : Nat} (h : offset ≤ text.length) :
    ∃ before line after, LineAt text offset before line after := by
  let onLine : Char → Bool := (· ≠ '\n')
  let back := (text.take offset).reverse
  have hback : (back.dropWhile onLine).reverse ++ (back.takeWhile onLine).reverse =
      text.take offset := by
    rw [← List.reverse_append, List.takeWhile_append_dropWhile, List.reverse_reverse]
  have hahead := List.takeWhile_append_dropWhile (p := onLine) (l := text.drop offset)
  have hlength : (back.dropWhile onLine).length + (back.takeWhile onLine).length = offset := by
    have hboth := congrArg List.length hback
    rw [List.length_append, List.length_reverse, List.length_reverse, List.length_take] at hboth
    omega
  have hfirst : ∀ (l : List Char), ∀ c ∈ (l.dropWhile onLine).head?, c = '\n' := by
    intro l c hc
    have hnot := List.head?_dropWhile_not onLine l
    rw [Option.mem_def.mp hc] at hnot
    simpa [onLine] using hnot
  refine ⟨(back.dropWhile onLine).reverse,
    (back.takeWhile onLine).reverse ++ (text.drop offset).takeWhile onLine,
    (text.drop offset).dropWhile onLine, ?_, ?_, ?_, hfirst _, ?_, ?_⟩
  · rw [← List.append_assoc, hback, List.append_assoc, hahead, List.take_append_drop]
  · rw [List.getLast?_reverse]
    exact hfirst back
  · intro hbreak
    have hkept : ∀ l : List Char, '\n' ∉ l.takeWhile onLine := by
      intro l hmem
      simpa [onLine] using List.all_eq_true.mp List.all_takeWhile _ hmem
    rcases List.mem_append.mp hbreak with hmem | hmem
    · exact hkept back (List.mem_reverse.mp hmem)
    · exact hkept _ hmem
  · rw [List.length_reverse]
    omega
  · rw [List.length_append, List.length_reverse, List.length_reverse]
    omega

theorem lines_eq_split (text : List Char) : lines text = Text.split '\n' text := by
  induction text with
  | nil => rfl
  | cons c rest ih =>
      cases h : Text.split '\n' rest with
      | nil => exact absurd h (Text.split_ne_nil '\n' rest)
      | cons line more => simp only [lines, Text.split, ih, h]

theorem lines_newline (rest : List Char) : lines ('\n' :: rest) = [] :: lines rest := by
  rw [lines_eq_split, lines_eq_split, Text.split_separator]

theorem lines_cons {c : Char} (hc : c ≠ '\n') (rest : List Char) :
    lines (c :: rest) = (c :: (lines rest).headD []) :: (lines rest).tail := by
  rw [lines]
  cases h : lines rest with
  | nil => exact absurd ((lines_eq_split rest).symm.trans h) (Text.split_ne_nil '\n' rest)
  | cons line more => simp [hc]

/-- The first line of a text. -/
theorem lines_first {line after : List Char} (hline : '\n' ∉ line)
    (hafter : ∀ c ∈ after.head?, c = '\n') : (lines (line ++ after))[0]? = some line := by
  rw [lines_eq_split]
  cases after with
  | nil =>
      rw [List.append_nil, Text.split_of_notMem hline]
      rfl
  | cons c after =>
      obtain rfl := hafter c rfl
      rw [Text.split_append hline]
      rfl

/-- The line stands among the lines of the text, behind as many as end before it. -/
theorem LineAt.getElem?_lines {text before line after : List Char} {offset : Nat}
    (h : LineAt text offset before line after) :
    (lines text)[before.count '\n']? = some line := by
  obtain ⟨rfl, hstarts, hline, hafter, -, -⟩ := h
  induction before with
  | nil => exact lines_first hline hafter
  | cons c before ih =>
      rw [List.append_assoc] at *
      rw [List.cons_append]
      by_cases hc : c = '\n'
      · subst hc
        rw [lines_newline, List.count_cons_self, List.getElem?_cons_succ]
        refine ih fun c hlast => hstarts c ?_
        rw [List.getLast?_cons, Option.mem_def.mp hlast]
        rfl
      · -- the first line goes on, so one ends further back
        obtain ⟨last, hlast⟩ : ∃ last, before.getLast? = some last := by
          cases hlast : before.getLast? with
          | some last => exact ⟨last, rfl⟩
          | none => exact absurd (hstarts c (by simp [List.getLast?_eq_none_iff.mp hlast])) hc
        have hends : ∀ c ∈ before.getLast?, c = '\n' := by
          intro c hmem
          refine hstarts c ?_
          rw [List.getLast?_cons, Option.mem_def.mp hmem]
          rfl
        obtain rfl := hends last hlast
        obtain ⟨n, hn⟩ : ∃ n, before.count '\n' = n + 1 :=
          Nat.exists_eq_add_one.mpr (List.count_pos_iff.mpr (List.mem_of_getLast? hlast))
        have hrest := ih hends
        rw [lines_cons hc, List.count_cons_of_ne hc, hn, List.getElem?_cons_succ,
          List.getElem?_tail, ← hn]
        exact hrest

/-! ## Positions on a line -/

section

variable {text before line after : List Char} {offset : Nat} {p : Position}

theorem count_newlines_of_line {part : List Char} (h : '\n' ∉ part) :
    (before ++ part).count '\n' = before.count '\n' := by
  rw [List.count_append, List.count_eq_zero.mpr h, Nat.add_zero]

/-- Positions on the line, or at its end, have its number, and their columns count from its
start. -/
theorem LineAt.on_line (h : LineAt text offset before line after) (hp : p.TrueIn text)
    (hle : before.length ≤ p.offset) (hstop : p.offset ≤ before.length + line.length) :
    p.line = before.count '\n' + 1 ∧ p.column = p.offset - before.length + 1 := by
  obtain ⟨rfl, hstarts, hline, -, -, -⟩ := h
  obtain ⟨part, hpart, hlength, htake⟩ : ∃ part : List Char, '\n' ∉ part ∧
      part.length = p.offset - before.length ∧
      (before ++ line ++ after).take p.offset = before ++ part := by
    refine ⟨line.take (p.offset - before.length), ?_, ?_, ?_⟩
    · exact fun hmem => hline (List.mem_of_mem_take hmem)
    · rw [List.length_take]
      omega
    · rw [List.append_assoc, List.take_append, List.take_of_length_le hle,
        List.take_append_of_le_length (by omega)]
  have hcolumn : ((before ++ part).reverse.takeWhile (· ≠ '\n')).length = part.length := by
    rw [List.reverse_append, List.takeWhile_append_of_pos, List.length_append, List.length_reverse]
    · -- the line starts behind a line feed, or with the text
      have hnone : before.reverse.takeWhile (· ≠ '\n') = [] := by
        cases hlast : before.getLast? with
        | none => simp [List.getLast?_eq_none_iff.mp hlast]
        | some c =>
            obtain rfl := hstarts c hlast
            rw [← List.head?_reverse] at hlast
            obtain ⟨rest, hrest⟩ := List.head?_eq_some_iff.mp hlast
            simp [hrest]
      rw [hnone, List.length_nil, Nat.add_zero]
    · intro c hc
      have hne : c ≠ '\n' := fun heq => hpart (heq ▸ List.mem_reverse.mp hc)
      simpa using hne
  rw [hp.2, htake]
  simp only [Position.behind, count_newlines_of_line hpart, hcolumn, hlength, List.length_append]
  omega

/-- Positions further on are on later lines. -/
theorem LineAt.line_lt (h : LineAt text offset before line after) (hp : p.TrueIn text)
    (hlt : before.length + line.length < p.offset) : before.count '\n' + 1 < p.line := by
  obtain ⟨rfl, -, -, hafter, -, -⟩ := h
  obtain ⟨n, hn⟩ : ∃ n, p.offset = (before ++ line).length + (n + 1) := by
    refine ⟨p.offset - (before ++ line).length - 1, ?_⟩
    rw [List.length_append]
    omega
  obtain ⟨rest, hrest⟩ : ∃ rest, after = '\n' :: rest := by
    cases after with
    | nil =>
        have hle := hp.1
        simp only [List.length_append, List.length_nil] at hle
        omega
    | cons c rest => exact ⟨rest, by rw [hafter c rfl]⟩
  have htake : (before ++ line ++ after).take p.offset = before ++ line ++ '\n' :: rest.take n := by
    rw [hn, List.take_length_add_append, hrest, List.take_succ_cons]
  rw [hp.2, htake]
  simp only [Position.behind, List.count_append, List.count_cons_self]
  omega

/-- An offset is on one line only. -/
theorem LineAt.unique {before' line' after' : List Char}
    (h : LineAt text offset before line after) (h' : LineAt text offset before' line' after') :
    before = before' ∧ line = line' := by
  have hle : offset ≤ text.length := by
    have hstop := h.le_stop
    rw [h.split, List.length_append, List.length_append]
    omega
  have hp := Position.trueIn_behind (List.take_prefix offset text)
  have hoffset : (Position.behind (text.take offset)).offset = offset := by
    show (text.take offset).length = offset
    rw [List.length_take, Nat.min_eq_left hle]
  have hcolumns : ∀ {before line after : List Char}, LineAt text offset before line after →
      (Position.behind (text.take offset)).column = offset - before.length + 1 := by
    intro before line after h
    have hcolumn := (h.on_line hp (by rw [hoffset]; exact h.start_le)
      (by rw [hoffset]; exact h.le_stop)).2
    rwa [hoffset] at hcolumn
  have hlength : before.length = before'.length := by
    have hcolumn := (hcolumns h).symm.trans (hcolumns h')
    have hstart := h.start_le
    have hstart' := h'.start_le
    omega
  have hsplit := h.split.symm.trans h'.split
  rw [List.append_assoc, List.append_assoc] at hsplit
  obtain ⟨rfl, -⟩ := List.append_inj hsplit hlength
  exact ⟨rfl, Option.some.inj (h.getElem?_lines.symm.trans h'.getElem?_lines)⟩

end

/-! ## Reports -/

/-- The report of a diagnostic at one place: the line of that number, and under it so many carets,
behind so many columns. -/
def pointing (d : Diagnostic) (number : Nat) (line : List Char) (columns carets : Nat) : String :=
  let gutter := spaces ((toString number).length + 1)
  let marks := String.ofList (List.replicate carets '^')
  "\n".intercalate
    [s!"{d.severity.label}: {d.message}",
      s!"{gutter}--> {d.span.unit}:{number}:{columns + 1}",
      s!"{gutter}|",
      s!"{number} | {String.ofList line}",
      s!"{gutter}| {spaces columns}{marks}"]

/-- The quoted line and the columns under it start below each other. -/
theorem pointing_aligned (number : Nat) : s!"{number} | ".length =
    s!"{spaces ((toString number).length + 1)}| ".length := by
  have hspaces : (spaces ((toString number).length + 1)).length = (toString number).length + 1 := by
    rw [spaces, String.length_ofList, List.length_replicate]
  rw [String.length_append, String.length_append]
  show (toString number).length + 3 = (spaces ((toString number).length + 1)).length + 2
  omega

/-- A report of a place in the source quotes the line that the place starts on, and has carets under
what of the place is on that line. -/
theorem render_eq_pointing {source unit : String} {d : Diagnostic}
    (hspan : d.span.PlacedIn source.toList unit) (hsecondary : d.secondary = [])
    {before line after : List Char}
    (h : LineAt source.toList d.span.start.offset before line after) :
    render [(unit, source)] d =
      pointing d (before.count '\n' + 1) (withoutReturns line)
        (d.span.start.offset - before.length)
        (max 1 (if d.span.stop.offset ≤ before.length + line.length then
          d.span.stop.offset - d.span.start.offset
        else (withoutReturns line).length - (d.span.start.offset - before.length))) := by
  obtain ⟨hline, hcolumn⟩ := h.on_line hspan.true.start h.start_le h.le_stop
  have hquoted : quotedLine source.toList d.span.start.line = withoutReturns line := by
    rw [quotedLine, hline, if_neg (Nat.succ_ne_zero _), Nat.add_sub_cancel,
      List.getD_eq_getElem?_getD, h.getElem?_lines]
    rfl
  have hcarets : underlineLength d.span (withoutReturns line).length =
      max 1 (if d.span.stop.offset ≤ before.length + line.length then
          d.span.stop.offset - d.span.start.offset
        else (withoutReturns line).length - (d.span.start.offset - before.length)) := by
    unfold underlineLength
    have hforward := hspan.true.forward
    have hstart := h.start_le
    by_cases hstop : d.span.stop.offset ≤ before.length + line.length
    · obtain ⟨hline', hcolumn'⟩ :=
        h.on_line hspan.true.stop (Nat.le_trans h.start_le hforward) hstop
      rw [if_pos (hline'.trans hline.symm), if_pos hstop]
      omega
    · have hlater := h.line_lt hspan.true.stop (Nat.lt_of_not_le hstop)
      rw [if_neg (by omega), if_neg hstop]
      omega
  unfold render pointing excerpt
  rw [Diagnostic.sites, hsecondary, List.flatMap_singleton, hspan.unit, List.lookup_cons_self]
  dsimp only
  rw [hquoted, hcarets, hline, hcolumn, Nat.add_sub_cancel]
  rfl

/-- What is wrong with a source, for the parser or for binding, is reported with the line of the
source that it starts on. That line exists, and under it there are carets from the character that
the diagnostic starts with up to its end or, if it ends on a later line, to the end of what is
quoted. -/
theorem render_points {setting : Parser.Setting} {delimiters : Delimiters}
    (hd : delimiters.check = .ok ()) {source : String} {p : Parsed}
    (hp : parse setting delimiters source = .ok p) (table : MacroTable) {d : Diagnostic}
    (h : d ∈ p.diagnostics delimiters ∨
      d ∈ (bindAll p.template table).2.map (·.diagnostic BindProblem.message)) :
    ∃ before line after, LineAt source.toList d.span.start.offset before line after ∧
      (lines source.toList)[before.count '\n']? = some line ∧
      render [(setting.unit, source)] d =
        pointing d (before.count '\n' + 1) (withoutReturns line)
          (d.span.start.offset - before.length)
          (max 1 (if d.span.stop.offset ≤ before.length + line.length then
            d.span.stop.offset - d.span.start.offset
          else (withoutReturns line).length - (d.span.start.offset - before.length))) := by
  obtain ⟨hspan, hsecondary⟩ := parse_diagnostics_placedIn hd hp h
  obtain ⟨before, line, after, hline⟩ := exists_lineAt hspan.true.start.1
  exact ⟨before, line, after, hline, hline.getElem?_lines,
    render_eq_pointing hspan hsecondary hline⟩

/-- A call with too many arguments on the second line, which ends in a carriage return: the carets
stand under the arguments. -/
theorem points_at_surplus_argument :
    let source := "\x7b% macro m() %\x7d\x7b% endmacro %\x7d\n a\x7b\x7b m(1) \x7d\x7d\r\n"
    Delimiters.standard.check = .ok () ∧
      ∃ p d, parse ⟨"page", .preserve⟩ .standard source = .ok p ∧
        (bindAll p.template p.template.macroTable.1).2.map (·.diagnostic BindProblem.message) =
          [d] ∧
        render [("page", source)] d = pointing d 2 " a\x7b\x7b m(1) \x7d\x7d".toList 6 3 := by
  intro source
  obtain ⟨p, hp, hproblems⟩ := Except.exists_of_toOption_map
    (x := parse ⟨"page", .preserve⟩ .standard source)
    (f := fun p => ((bindAll p.template p.template.macroTable.1).2.map
      (·.diagnostic BindProblem.message)).map fun d => (d.span.start.offset, d.span.stop.offset))
    (b := [(36, 39)]) (by decide +kernel)
  obtain ⟨d, hd, hspan⟩ := List.map_eq_singleton_iff.mp hproblems
  obtain ⟨hstart, hstop⟩ := Prod.mk.inj hspan
  have hline : LineAt source.toList d.span.start.offset
      "\x7b% macro m() %\x7d\x7b% endmacro %\x7d\n".toList
      " a\x7b\x7b m(1) \x7d\x7d\r".toList "\n".toList := by
    have hends : "\x7b% macro m() %\x7d\x7b% endmacro %\x7d\n".toList.getLast? = some '\n' ∧
        "\n".toList.head? = some '\n' := by
      decide +kernel
    rw [hstart]
    exact ⟨by decide +kernel, fun c hc => (Option.some.inj (hends.1.symm.trans hc)).symm,
      by decide +kernel, fun c hc => (Option.some.inj (hends.2.symm.trans hc)).symm,
      by decide +kernel, by decide +kernel⟩
  obtain ⟨before, line, after, hat, -, hrender⟩ :=
    @render_points ⟨"page", .preserve⟩ _ Delimiters.check_standard _ _ hp _ d
      (.inr (by rw [hd]; simp))
  obtain ⟨rfl, rfl⟩ := hat.unique hline
  have hnumber : "\x7b% macro m() %\x7d\x7b% endmacro %\x7d\n".toList.count '\n' + 1 = 2 := by
    decide +kernel
  have hlengths : "\x7b% macro m() %\x7d\x7b% endmacro %\x7d\n".toList.length = 30 ∧
      " a\x7b\x7b m(1) \x7d\x7d\r".toList.length = 13 := by
    decide +kernel
  have hquoted : withoutReturns " a\x7b\x7b m(1) \x7d\x7d\r".toList =
      " a\x7b\x7b m(1) \x7d\x7d".toList := by
    decide +kernel
  rw [hnumber, hquoted, hlengths.1, hlengths.2, hstart, hstop] at hrender
  exact ⟨Delimiters.check_standard, p, d, hp, hd, hrender⟩

end TemplateCompiler.Report
