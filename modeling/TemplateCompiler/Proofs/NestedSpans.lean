import TemplateCompiler.Proofs.JoinedLiterals
import TemplateCompiler.Proofs.KeptTexts
import TemplateCompiler.Proofs.Renaming
import TemplateCompiler.Proofs.SpannedTemplates

/-!
# Spans are nested

In a parsed source no span ends before its start, wherever spans are made, and those of a template
form a tree, `parse_spans_nested`. A complaint changes nothing about that. Without complaints the
template reaches from the first character of the source to the last: all tokens up to the end were
taken, the last of them a text or the end of a tag, and behind one of those nothing is skipped.
-/

namespace TemplateCompiler

/-! ## The tokens of a source -/

theorem tokenize_units (source unit : String) (delimiters : Delimiters) :
    ∀ t ∈ (tokenize source unit delimiters).1, t.span.unit = unit := by
  rw [tokenize_inUnit source unit unit delimiters]
  exact List.forall_mem_map.mpr fun t _ => rfl

theorem Parser.State.InUnit.of_tokenize {delimiters : Delimiters} (hd : delimiters.check = .ok ())
    (source unit : String) :
    State.InUnit { unread := (tokenize source unit delimiters).1,
                   fault := (tokenize source unit delimiters).2 } unit :=
  ⟨.of_tokenize hd source unit, tokenize_units source unit delimiters⟩

/-- Behind a text or a closing delimiter one is outside of all tags. -/
theorem Token.insideTag_eq_false {us : List Token} {t : Token}
    (hchain : (us ++ [t]).IsChain Token.Borders) (ht : t.kind = .text ∨ t.kind.isCloser) :
    Token.insideTag (us ++ [t]) = false := by
  have hcloser : ∀ (us : List Token) (t : Token), t.kind.isCloser →
      Token.insideTag (us ++ [t]) = false := by
    intro us t ht
    have hkind : t.kind ≠ .blockStart ∧ t.kind ≠ .exprStart := by
      constructor <;> (intro h; rw [h] at ht; cases ht)
    simp [Token.insideTag, ht, hkind.1, hkind.2]
  rcases ht with ht | ht
  · -- the token in front of a text closes a tag
    have hdelimiter : (t.kind.isOpener || t.kind.isCloser) = false := by
      rw [ht]
      rfl
    have hskip : Token.insideTag (us ++ [t]) = Token.insideTag us := by
      simp [Token.insideTag, hdelimiter]
    rw [hskip]
    rcases List.eq_nil_or_concat' us with rfl | ⟨vs, u, rfl⟩
    · rfl
    · refine hcloser vs u ?_
      rw [List.append_assoc] at hchain
      obtain ⟨hborders, -⟩ := List.isChain_cons_cons.mp (hchain.suffix (List.suffix_append vs _))
      exact hborders.behind ht
  · exact hcloser us t ht

/-- Where all tokens of a source were taken, all characters were. -/
theorem Parser.State.TookAll.offset_eq {delimiters : Delimiters} (hd : delimiters.check = .ok ())
    {source unit : String} {stop : Position}
    (h : State.TookAll { unread := (tokenize source unit delimiters).1,
                         fault := (tokenize source unit delimiters).2 } stop) :
    stop.offset = source.length := by
  obtain ⟨us, t, rest, hts, heof, hlast, rfl⟩ := h
  obtain ⟨s, done, hread, -, hend⟩ := tokenize_readUpTo hd source unit
  have hchain := tokenize_borders hd source unit
  have horder := tokenize_inOrder source unit delimiters
  have hfault := (tokenize_continues hd source unit).2.2
  simp only at hts
  rw [hts] at hread hchain horder hfault
  obtain rfl := Token.eq_nil_of_eof (hchain.suffix (List.suffix_append us _)) heof
  have htend : t.span.start.offset = source.length := by
    obtain ⟨u, hu, -, hstart⟩ := hread.finished (hend (hfault ⟨t, by simp, heof⟩))
    rw [List.getLast?_concat] at hu
    obtain rfl := Option.some.inj hu
    rw [hstart, String.length_toList]
  rcases List.eq_nil_or_concat' us with rfl | ⟨vs, u, rfl⟩
  · exact htend
  · rw [List.getLast?_concat, Option.map_some, Option.getD_some, ← htend]
    have hle : u.span.stop.offset ≤ t.span.start.offset :=
      (List.pairwise_append.mp horder.apart).2.2 u (by simp) t (by simp)
    have houtside := Token.insideTag_eq_false
      (List.isChain_append.mp hchain).1 (hlast u (by simp))
    have hgap := (hread.gaps vs u t [] (by simp)).2
    rw [houtside] at hgap
    exact Nat.le_antisymm hle (Nat.not_lt.mp fun hlt => Bool.false_ne_true (hgap hlt))

/-! ## Parsed templates -/

/-- No span of a parsed template ends before its start, nor does one that is made on the way, and
the spans form a tree in the unit. Without complaints they cover the source. -/
structure Parsed.SpansNest (p : Parsed) (source unit : String) : Prop where
  nested : p.template.spanTree.Nested unit
  joined : ∀ g : Generator, g.table = p.template.macroTable.1 → ∀ name r,
    g.program p.template name ≠ .error (.reversed r)
  whole : p.complaints = [] →
    p.template.span.start.offset = 0 ∧ p.template.span.stop.offset = source.length

theorem parse_spans_nested {delimiters : Delimiters} (hd : delimiters.check = .ok ())
    (setting : Parser.Setting) (source : String) :
    (∀ t ∈ (tokenize source setting.unit delimiters).1,
        t.span.start.offset ≤ t.span.stop.offset) ∧
      (∀ f ∈ (tokenize source setting.unit delimiters).2,
        f.span.start.offset ≤ f.span.stop.offset) ∧
      (∀ r, parse setting delimiters source ≠ .error (.reversed r)) ∧
      ∀ p, parse setting delimiters source = .ok p → p.SpansNest source setting.unit := by
  have hunit := Parser.State.InUnit.of_tokenize hd source setting.unit
  obtain ⟨hchain, hnumbers, hend⟩ := tokenize_continues hd source setting.unit
  obtain ⟨s, done, hread, hfault, -⟩ := tokenize_readUpTo hd source setting.unit
  have hreturns := Parser.template_returns setting hunit.ordered hchain hnumbers hend
  have hlays := Parser.template_lays hunit rfl
  refine ⟨(tokenize_inOrder source setting.unit delimiters).forward,
    fun f hf => (hread.fault (hfault f hf)).forward, fun r hr => ?_, fun p hp => ?_⟩
  · obtain ⟨s', hrun⟩ := Parser.template_of_parse_error hr
    cases hreturns.of_error hrun
  · obtain ⟨s', hrun, hcomplaints⟩ := Parser.template_of_parse hp
    obtain ⟨hnested, hstart, hall⟩ := hlays.of_ok hrun
    refine ⟨hnested, fun g hg name => Generator.program_keepsOrder hp hg name, fun hnone => ?_⟩
    exact ⟨by rw [hstart]; rfl, (hall (hcomplaints.trans hnone)).offset_eq hd⟩

/-- Arguments that are mixed, parentheses that leave no trace, a default, and an arm without a
condition. -/
theorem spans_nest_of_mixed_arguments :
    let source := "a\n\x7b% macro m(x, y = (1)) %\x7d\x7b\x7b x|f((y)) \x7d\x7d" ++
      "\x7b% endmacro %\x7d \x7b% if (a.b)[0] %\x7d\x7b\x7b m(y = 2, (3)) \x7d\x7d" ++
      "\x7b# n #\x7d b\x7b% else %\x7d" ++
      "\x7b% for i in (c) %\x7di\x7b% endfor %\x7d\x7b% endif %\x7d"
    Delimiters.standard.check = .ok () ∧
      ∃ p, parse ⟨"page", .minimize⟩ .standard source = .ok p ∧ p.complaints = [] ∧
        p.SpansNest source "page" ∧ p.template.span.stop.offset = 153 := by
  intro source
  obtain ⟨p, hp, hcounts⟩ := Except.exists_of_toOption_map
    (x := parse ⟨"page", .minimize⟩ .standard source)
    (f := fun p => (p.complaints.length, p.template.span.stop.offset)) (b := (0, 153))
    (by decide +kernel)
  obtain ⟨hnone, hstop⟩ := Prod.mk.inj hcounts
  obtain ⟨-, -, -, hnest⟩ :=
    parse_spans_nested Delimiters.check_standard ⟨"page", .minimize⟩ source
  exact ⟨Delimiters.check_standard, p, hp, List.eq_nil_of_length_eq_zero hnone, hnest p hp, hstop⟩

end TemplateCompiler
