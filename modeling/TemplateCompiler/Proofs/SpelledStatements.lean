import TemplateCompiler.Proofs.SpelledExpressions
import TemplateCompiler.Proofs.StatementGrammar

/-!
# What is spelled follows the grammar of statements

Tokens with the lexemes that a template is spelled by describe the nodes of that template, up to
spans.
-/

namespace TemplateCompiler

open Template (Expr Node bareNodes bareArms nodeSegments armSegments)

/-! ## Tokens of segments -/

def segmentLexemes (segments : List Segment) : List Lexeme :=
  segments.flatMap Segment.lexemes

section

variable {ts : List Token} {segments more : List Segment}

theorem tokens_of_segments
    (h : ts.map Token.lexeme = segmentLexemes (segments ++ more)) :
    ∃ us vs, ts = us ++ vs ∧ us.map Token.lexeme = segmentLexemes segments ∧
      vs.map Token.lexeme = segmentLexemes more := by
  rw [segmentLexemes, List.flatMap_append] at h
  exact List.map_eq_append_iff.mp h

theorem tokens_of_block {word : String} {inside : List Lexeme}
    (h : ts.map Token.lexeme = segmentLexemes (.block ((.keyword, word) :: inside) :: more)) :
    ∃ (g : Tag) (us vs : List Token), ts = g.tokens ++ vs ∧ g.Holds word us ∧
      us.map Token.lexeme = inside ∧ vs.map Token.lexeme = segmentLexemes more := by
  obtain ⟨ws, vs, rfl, hws, hvs⟩ := @tokens_of_segments ts [_] more h
  rw [segmentLexemes, List.flatMap_singleton] at hws
  obtain ⟨opening, xs, rfl, hopen, hxs⟩ := List.map_eq_cons_iff.mp hws
  obtain ⟨ys, zs, rfl, hys, hzs⟩ := List.map_eq_append_iff.mp hxs
  obtain ⟨w, us, rfl, hw, hus⟩ := List.map_eq_cons_iff.mp hys
  obtain ⟨closing, rfl, hclose⟩ := List.map_eq_singleton_iff.mp hzs
  exact ⟨⟨opening, w :: us, closing⟩, us, vs, rfl,
    ⟨congrArg Prod.fst hopen, ⟨w, rfl, hw⟩, congrArg Prod.fst hclose⟩, hus, hvs⟩

/-- The last tag of a block. -/
theorem tokens_of_word {word : String}
    (h : ts.map Token.lexeme = segmentLexemes [.word word]) :
    ∃ g : Tag, ts = g.tokens ∧ g.Holds word [] := by
  obtain ⟨g, us, vs, rfl, hg, hus, hvs⟩ := tokens_of_block h
  rw [List.map_eq_nil_iff.mp hus] at hg
  exact ⟨g, by rw [List.map_eq_nil_iff.mp hvs, List.append_nil], hg⟩

end

/-! ## Headers -/

theorem names_of_lexemes {names : List String} (hne : names ≠ []) {ts : List Token}
    (h : ts.map Token.lexeme =
      commaSeparatedLexemes (names.map fun name => [(.identifier, name)])) : Names ts names := by
  induction names generalizing ts with
  | nil => exact absurd rfl hne
  | cons name names ih =>
      cases names with
      | nil =>
          obtain ⟨t, rfl, ht⟩ := List.map_eq_singleton_iff.mp h
          obtain ⟨hkind, rfl⟩ := Prod.mk.inj ht
          exact .last hkind
      | cons next names =>
          obtain ⟨t, us, rfl, ht, hus⟩ := List.map_eq_cons_iff.mp h
          obtain ⟨comma, vs, rfl, hcomma, hvs⟩ := List.map_eq_cons_iff.mp hus
          obtain ⟨hkind, rfl⟩ := Prod.mk.inj ht
          exact .more hkind (congrArg Prod.fst hcomma) (ih (List.cons_ne_nil _ _) hvs)

theorem Parameter.Writable.declaresOne {p : Parameter Expr} (hp : p.Writable) {ts : List Token}
    (h : ts.map Token.lexeme = p.spelling) : DeclaresOne ts p.bare := by
  obtain ⟨name, default, span⟩ := p
  obtain ⟨t, us, rfl, ht, hus⟩ := List.map_eq_cons_iff.mp h
  obtain ⟨hkind, rfl⟩ := Prod.mk.inj ht
  cases default with
  | none =>
      rw [List.map_eq_nil_iff.mp hus]
      exact .required hkind
  | some e =>
      obtain ⟨equals, vs, rfl, hequals, hvs⟩ := List.map_eq_cons_iff.mp hus
      exact .optional hkind (congrArg Prod.fst hequals)
        ((hp.default e rfl).isSpelled.disjunction vs hvs)

theorem declares_of_lexemes {params : List (Parameter Expr)} (hparams : ∀ p ∈ params, p.Writable)
    (hdistinct : (params.map (·.name)).Nodup) {ts : List Token}
    (h : ts.map Token.lexeme = commaSeparatedLexemes (params.map Parameter.spelling)) :
    Declares ts (params.map Parameter.bare) := by
  induction params generalizing ts with
  | nil =>
      rw [List.map_eq_nil_iff.mp h]
      exact .none
  | cons p params ih =>
      obtain ⟨hp, hparams⟩ := List.forall_mem_cons.mp hparams
      obtain ⟨hnew, hdistinct⟩ := List.nodup_cons.mp hdistinct
      cases params with
      | nil => exact .last (hp.declaresOne h)
      | cons next params =>
          obtain ⟨us, vs, rfl, hus, hvs⟩ := List.map_eq_append_iff.mp h
          obtain ⟨comma, ws, rfl, hcomma, hws⟩ := List.map_eq_cons_iff.mp hvs
          refine .more (hp.declaresOne hus) (congrArg Prod.fst hcomma) (ih hparams hdistinct hws) ?_
          rw [List.map_map]
          exact hnew

/-! ## Nodes -/

/-- In front of any nodes, tokens with these lexemes are one more. -/
def Template.Node.IsSpelled (n : Node) : Prop :=
  ∀ (ts us : List Token) (ns : List Node), ts.map Token.lexeme = segmentLexemes n.segments →
    Describes us (.nodes ns) → Describes (ts ++ us) (.nodes (n.bare :: ns))

theorem describes_of_nodeSegments {ns : List Node} (h : ∀ n ∈ ns, n.IsSpelled) {ts : List Token}
    (hts : ts.map Token.lexeme = segmentLexemes (nodeSegments ns)) :
    Describes ts (.nodes (bareNodes ns)) := by
  induction ns generalizing ts with
  | nil =>
      rw [List.map_eq_nil_iff.mp hts]
      exact .done
  | cons n ns ih =>
      obtain ⟨hn, hns⟩ := List.forall_mem_cons.mp h
      obtain ⟨us, vs, rfl, hus, hvs⟩ := tokens_of_segments hts
      exact hn us vs _ hus (ih hns hvs)

/-- What holds of all arms but the last holds of all but the last behind the first. -/
theorem forall_mem_dropLast_of_cons {first : Arm Node} {arms : List (Arm Node)}
    {P : Arm Node → Prop} (h : ∀ a ∈ (first :: arms).dropLast, P a) : ∀ a ∈ arms.dropLast, P a := by
  cases arms with
  | nil => exact List.forall_mem_nil _
  | cons => exact (List.forall_mem_cons.mp h).2

/-- The arms behind the header of an arm with that body. -/
theorem describes_of_armSegments {arms : List (Arm Node)} {condition : Option Expr}
    {body : List Node} (hbody : ∀ n ∈ body, n.IsSpelled)
    (hbodies : ∀ a ∈ arms, ∀ n ∈ a.body, n.IsSpelled)
    (hconditions : ∀ a ∈ arms, ∀ c, a.condition = some c → c.IsSpelled)
    (hlast : ∀ a ∈ arms.dropLast, a.condition.isSome) {ts : List Token}
    (hts : ts.map Token.lexeme =
      segmentLexemes (nodeSegments body ++ (armSegments "elif" arms ++ [.word "endif"]))) :
    Describes ts (.arms condition (⟨condition, bareNodes body, .blank⟩ :: bareArms arms)) := by
  induction arms generalizing condition body ts with
  | nil =>
      obtain ⟨ws, vs, rfl, hws, hvs⟩ := tokens_of_segments hts
      obtain ⟨last, rfl, hend⟩ := tokens_of_word hvs
      exact .endBranch (describes_of_nodeSegments hbody hws) hend
  | cons a arms ih =>
      obtain ⟨c, others, span⟩ := a
      obtain ⟨hothers, hbodies'⟩ := List.forall_mem_cons.mp hbodies
      obtain ⟨hcondition, hconditions'⟩ := List.forall_mem_cons.mp hconditions
      obtain ⟨ws, vs, rfl, hws, hvs⟩ := tokens_of_segments hts
      have hb := describes_of_nodeSegments hbody hws
      rw [armSegments, List.cons_append, List.append_assoc] at hvs
      cases c with
      | some e =>
          obtain ⟨middle, us, xs, rfl, hmiddle, hus, hxs⟩ := tokens_of_block hvs
          exact .nextArm hb hmiddle ((hcondition e rfl).disjunction us hus)
            (ih hothers hbodies' hconditions' (forall_mem_dropLast_of_cons hlast) hxs)
      | none =>
          obtain ⟨middle, us, xs, rfl, hmiddle, hus, hxs⟩ := tokens_of_block hvs
          rw [List.map_eq_nil_iff.mp hus] at hmiddle
          cases arms with
          | nil =>
              obtain ⟨os, zs, rfl, hos, hzs⟩ := tokens_of_segments hxs
              obtain ⟨last, rfl, hend⟩ := tokens_of_word hzs
              exact .lastArm hb hmiddle (describes_of_nodeSegments hothers hos) hend
          | cons => exact absurd (hlast _ List.mem_cons_self) (by simp)

theorem Template.Node.Writable.isSpelled {n : Node} (h : n.Writable) : n.IsSpelled := by
  induction h with
  | text hne _ =>
      intro ts us ns hts hus
      obtain ⟨t, rfl, ht⟩ := List.map_eq_singleton_iff.mp hts
      obtain ⟨hkind, rfl⟩ := Prod.mk.inj ht
      exact .text hkind hne hus
  | @output e span he =>
      intro ts us ns hts hus
      rw [Node.segments, segmentLexemes, List.flatMap_singleton] at hts
      obtain ⟨opening, xs, rfl, hopen, hxs⟩ := List.map_eq_cons_iff.mp hts
      obtain ⟨vs, ys, rfl, hvs, hys⟩ := List.map_eq_append_iff.mp hxs
      obtain ⟨closing, rfl, hclose⟩ := List.map_eq_singleton_iff.mp hys
      have h := Describes.output (congrArg Prod.fst hopen) (he.isSpelled.disjunction vs hvs)
        (congrArg Prod.fst hclose) hus
      simpa [Node.bare] using h
  | @branch arms span hne hfirst hlast hconditions _ ihbodies =>
      intro ts us ns hts hus
      have hspelled : ∀ a ∈ arms, ∀ c, a.condition = some c → c.IsSpelled :=
        fun a ha c hc => (hconditions a ha c hc).isSpelled
      cases arms with
      | nil => exact absurd rfl hne
      | cons a arms =>
          obtain ⟨c, body, armSpan⟩ := a
          obtain ⟨e, rfl⟩ : ∃ e, c = some e :=
            Option.isSome_iff_exists.mp (hfirst ⟨c, body, armSpan⟩ rfl)
          obtain ⟨hbody, hbodies⟩ := List.forall_mem_cons.mp ihbodies
          obtain ⟨hcondition, hspelled'⟩ := List.forall_mem_cons.mp hspelled
          rw [Node.segments, armSegments, List.cons_append, List.append_assoc] at hts
          obtain ⟨g, vs, xs, rfl, hg, hvs, hxs⟩ := tokens_of_block hts
          rw [List.append_assoc]
          exact .branch hg ((hcondition e rfl).disjunction vs hvs)
            (describes_of_armSegments hbody hbodies hspelled' (forall_mem_dropLast_of_cons hlast)
              hxs) hus
  | @loop targets iterable body otherwise span hne hnames he _ _ ihbody ihotherwise =>
      intro ts us ns hts hus
      rw [Node.segments] at hts
      obtain ⟨g, xs, ys, rfl, hg, hxs, hys⟩ := tokens_of_block hts
      obtain ⟨names, zs, rfl, hnamesTokens, hzs⟩ := List.map_eq_append_iff.mp hxs
      obtain ⟨into, vs, rfl, hinto, hvs⟩ := List.map_eq_cons_iff.mp hzs
      obtain ⟨ws, rest, rfl, hws, hrest⟩ := tokens_of_segments hys
      obtain ⟨others, lasts, rfl, hothers, hlasts⟩ := tokens_of_segments hrest
      obtain ⟨last, rfl, hlast⟩ := tokens_of_word hlasts
      have ht := names_of_lexemes hne hnamesTokens
      have hiterable := he.isSpelled.disjunction vs hvs
      have hbody := describes_of_nodeSegments ihbody hws
      cases otherwise with
      | nil =>
          obtain rfl := List.map_eq_nil_iff.mp hothers
          simpa [Node.bare, bareNodes] using Describes.loop hg ht hinto hiterable hbody hlast hus
      | cons n otherwise =>
          rw [if_neg (by simp)] at hothers
          obtain ⟨middle, vs', os, rfl, hmiddle, hvs', hos⟩ := tokens_of_block hothers
          rw [List.map_eq_nil_iff.mp hvs'] at hmiddle
          have ho := describes_of_nodeSegments ihotherwise hos
          have h := Describes.loopElse hg ht hinto hiterable hbody hmiddle ho hlast hus
          simpa [Node.bare] using h
  | @definition d hname hparams hdistinct _ ihbody =>
      intro ts us ns hts hus
      obtain ⟨title, params, body, nameSpan, span⟩ := d
      rw [Node.segments] at hts
      obtain ⟨g, xs, ys, rfl, hg, hxs, hys⟩ := tokens_of_block hts
      obtain ⟨name, zs, rfl, hnameToken, hzs⟩ := List.map_eq_cons_iff.mp hxs
      obtain ⟨hkind, rfl⟩ := Prod.mk.inj hnameToken
      obtain ⟨opening, vs, closing, rfl, hopen, hvs, hclose⟩ := tokens_of_parenthesized hzs
      obtain ⟨ws, lasts, rfl, hws, hlasts⟩ := tokens_of_segments hys
      obtain ⟨last, rfl, hlast⟩ := tokens_of_word hlasts
      have hdeclares := declares_of_lexemes hparams hdistinct hvs
      have h := Describes.definition hg hkind hopen hdeclares hclose
        (describes_of_nodeSegments ihbody hws) hlast hus
      simpa [Node.bare] using h
  | @callBlock call body span hcall _ ihbody =>
      intro ts us ns hts hus
      rw [Node.segments] at hts
      obtain ⟨g, xs, ys, rfl, hg, hxs, hys⟩ := tokens_of_block hts
      obtain ⟨name, zs, rfl, hnameToken, hzs⟩ := List.map_eq_cons_iff.mp hxs
      obtain ⟨hkind, hvalue⟩ := Prod.mk.inj hnameToken
      obtain ⟨opening, vs, closing, rfl, hopen, hvs, hclose⟩ := tokens_of_parenthesized hzs
      obtain ⟨ws, lasts, rfl, hws, hlasts⟩ := tokens_of_segments hys
      obtain ⟨last, rfl, hlast⟩ := tokens_of_word hlasts
      have hargs := spellings_spell (fun e he => (hcall.args e he).isSpelled)
        fun a ha => (hcall.named a ha).isSpelled
      have h := Describes.callBlock hg hkind hopen (hargs.spells vs hvs) hclose
        (describes_of_nodeSegments ihbody hws) hlast hus
      simpa [Node.bare, MacroCall.bare, hvalue] using h
  | @inclusion path span _ =>
      intro ts us ns hts hus
      obtain ⟨g, xs, ys, rfl, hg, hxs, hys⟩ := tokens_of_block hts
      obtain ⟨t, rfl, ht⟩ := List.map_eq_singleton_iff.mp hxs
      obtain ⟨hkind, rfl⟩ := Prod.mk.inj ht
      rw [List.map_eq_nil_iff.mp hys, List.append_nil]
      exact .inclusion hg hkind hus
  | @assignment title value span _ he =>
      intro ts us ns hts hus
      obtain ⟨g, xs, ys, rfl, hg, hxs, hys⟩ := tokens_of_block hts
      obtain ⟨name, zs, rfl, hnameToken, hzs⟩ := List.map_eq_cons_iff.mp hxs
      obtain ⟨equals, vs, rfl, hequals, hvs⟩ := List.map_eq_cons_iff.mp hzs
      obtain ⟨hkind, rfl⟩ := Prod.mk.inj hnameToken
      rw [List.map_eq_nil_iff.mp hys, List.append_nil]
      exact .assignment (.inl rfl) hg hkind (congrArg Prod.fst hequals)
        (he.isSpelled.disjunction vs hvs) hus

end TemplateCompiler
