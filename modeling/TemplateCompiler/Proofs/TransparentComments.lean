import TemplateCompiler.Proofs.AlikePrograms
import TemplateCompiler.Proofs.LeftOutComments

/-!
# Comments are transparent

A comment leaves nothing behind but a seam in the text around it, and nothing that follows parsing
sees the seam. Main statement: in the standard syntax, where no delimiter has a whitespace marker, a
source is read the same without a comment: the diagnostics say the same, and the tree is the same up
to spans and to how its texts are cut. If the calls bind and nothing is included, the program is the
same up to spans.
-/

namespace TemplateCompiler

open Generator (ofTemplate)

/-- Two sources are read the same, except for where things stand and for how the text is cut. -/
structure Parsed.ReadAlike (p q : Parsed) : Prop where
  messages : (q.diagnostics .standard).map (·.message) = (p.diagnostics .standard).map (·.message)
  tree : q.template.bare.joined = p.template.bare.joined
  /-- The calls that do not bind break the same rules. -/
  calls : (bindAll q.template q.template.macroTable.1).2.map (·.problem) =
    (bindAll p.template p.template.macroTable.1).2.map (·.problem)
  programs : (bindAll p.template p.template.macroTable.1).2 = [] →
    Compiler.includeTags p.template = [] → ∀ escaper name, ∃ program program',
      (ofTemplate p.template [] escaper).program p.template name = .ok program ∧
      (ofTemplate q.template [] escaper).program q.template name = .ok program' ∧
      program'.bare = program.bare

theorem Parsed.ReadAlike.of_parse {setting : Parser.Setting} {delimiters : Delimiters}
    {source source' : String} {p q : Parsed} (hp : parse setting delimiters source = .ok p)
    (hq : parse setting delimiters source' = .ok q)
    (hproblems : q.complaints.map (·.problem) = p.complaints.map (·.problem))
    (hsame : q.template.bare.joined = p.template.bare.joined) : p.ReadAlike q where
  messages := by
    have hmessages : ∀ p : Parsed, (p.diagnostics .standard).map (·.message) =
        (p.complaints.map (·.problem)).map (SyntaxProblem.message .standard) := fun p => by
      rw [Parsed.diagnostics, List.map_map, List.map_map]
      rfl
    rw [hmessages, hmessages, hproblems]
  tree := hsame
  calls := bindAll_problems_of_joined hsame
  programs := Generator.exists_programs_alike hp hq hsame

/-- A source is read the same without any one of its comments, or a number that cannot be read stops
the parser in both. -/
theorem readAlike_without_comment {source unit : String} (hnul : '\x00' ∉ source.toList)
    (hunmarked : ∀ t ∈ (tokenize source unit .standard).1, t.Unmarked)
    {before after : List Token} {opening body close : Token}
    (htokens : (tokenize source unit .standard).1 = before ++ opening :: body :: close :: after)
    (hopening : opening.kind = .commentStart) (hbody : body.kind = .comment)
    (hclose : close.kind = .commentEnd) :
    let rest := Text.without source opening.span.start.offset close.span.stop.offset
    (∃ p q, parse ⟨unit, .preserve⟩ .standard source = .ok p ∧
      parse ⟨unit, .preserve⟩ .standard rest = .ok q ∧ p.ReadAlike q) ∨
      ∃ f, parse ⟨unit, .preserve⟩ .standard source = .error (.badNumber f) ∧
        parse ⟨unit, .preserve⟩ .standard rest = .error (.badNumber f) := by
  intro rest
  rcases parse_without_comment hnul hunmarked htokens hopening hbody hclose with
    ⟨p, q, hp, hq, hproblems, hsame⟩ | hstop
  · have htree : q.template.bare.joined = p.template.bare.joined :=
      congrArg (Template.mk · .blank) hsame
    exact .inl ⟨p, q, hp, hq, .of_parse hp hq hproblems htree⟩
  · exact .inr hstop

/-- A comment that holds a closing delimiter, between two texts in a macro that is called. -/
theorem readAlike_of_comment_in_macro :
    let source := "\x7b% macro m(a) %\x7dx\x7b# no %\x7d #\x7dy\x7b\x7b a \x7d\x7d" ++
      "\x7b% endmacro %\x7d\x7b\x7b m(1) \x7d\x7d"
    let rest := "\x7b% macro m(a) %\x7dxy\x7b\x7b a \x7d\x7d" ++
      "\x7b% endmacro %\x7d\x7b\x7b m(1) \x7d\x7d"
    let tokens := (tokenize source "page" .standard).1
    let opening : Token := ⟨.commentStart, "", "\x7b#", ⟨⟨1, 18, 17⟩, ⟨1, 20, 19⟩, "page"⟩⟩
    let body : Token := ⟨.comment, " no %\x7d ", " no %\x7d ", ⟨⟨1, 20, 19⟩, ⟨1, 27, 26⟩, "page"⟩⟩
    let close : Token := ⟨.commentEnd, "", "#\x7d", ⟨⟨1, 27, 26⟩, ⟨1, 29, 28⟩, "page"⟩⟩
    '\x00' ∉ source.toList ∧ (∀ t ∈ tokens, t.Unmarked) ∧
      tokens = tokens.take 8 ++ opening :: body :: close :: tokens.drop 11 ∧
      Text.without source 17 28 = rest ∧
      ∃ p q program program', parse ⟨"page", .preserve⟩ .standard source = .ok p ∧
        parse ⟨"page", .preserve⟩ .standard rest = .ok q ∧ p.ReadAlike q ∧
        (ofTemplate p.template [] "text").program p.template "page" = .ok program ∧
        (ofTemplate q.template [] "text").program q.template "page" = .ok program' ∧
        program'.bare = program.bare := by
  intro source rest tokens opening body close
  have hnul : '\x00' ∉ source.toList := by decide +kernel
  have hunmarked : ∀ t ∈ tokens, t.Unmarked := by
    unfold Token.Unmarked
    decide +kernel
  have htokens : tokens = tokens.take 8 ++ opening :: body :: close :: tokens.drop 11 := by
    decide +kernel
  have hrest : Text.without source 17 28 = rest := by decide +kernel
  refine ⟨hnul, hunmarked, htokens, hrest, ?_⟩
  obtain ⟨p, hp, hfacts⟩ := Except.exists_of_toOption_map
    (x := parse ⟨"page", .preserve⟩ .standard source)
    (f := fun p => ((bindAll p.template p.template.macroTable.1).2.length,
      (Compiler.includeTags p.template).length))
    (b := (0, 0)) (by decide +kernel)
  obtain ⟨hbinds, htags⟩ := Prod.mk.inj hfacts
  rcases readAlike_without_comment hnul hunmarked htokens rfl rfl rfl with
    ⟨p', q, hp', hq, halike⟩ | ⟨f, herror, -⟩
  · obtain rfl := Except.ok.inj (hp.symm.trans hp')
    obtain ⟨program, program', hprograms⟩ := halike.programs (List.eq_nil_of_length_eq_zero hbinds)
      (List.eq_nil_of_length_eq_zero htags) "text" "page"
    exact ⟨p, q, program, program', hp, hrest ▸ hq, halike, hprograms⟩
  · cases hp.symm.trans herror

end TemplateCompiler
