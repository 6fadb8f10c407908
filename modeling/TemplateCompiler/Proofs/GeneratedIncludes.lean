import TemplateCompiler.Compiler.Run
import TemplateCompiler.Proofs.BoundSites
import TemplateCompiler.Proofs.GeneratedCalls

/-!
# Generated programs include what their tags name

An include tag holds a keyword and ends at a closing delimiter behind it. Tags are read one after
the other, so each ends behind the one before it, and no two have the same span. So the program that
is found under the span of a tag is the one that was put there for this tag.
-/

namespace TemplateCompiler

open Template (Node walkAll walkArms)

/-! ## Include tags -/

def Template.Node.inclusion? : Node → Option (String × Span)
  | .inclusion path span => some (path, span)
  | _ => none

theorem Compiler.includeTags_eq (t : Template) :
    includeTags t = (walkAll t.body).filterMap (·.inclusion?) := by
  rw [includeTags]
  congr 1

/-- Tags that are read from tokens, each behind the ones before it. -/
structure TagsFollow (ts : List Token) (tags : List (String × Span)) : Prop where
  apart : tags.Pairwise fun a b => a.2.stop.offset < b.2.stop.offset
  among : ∀ a ∈ tags, ∃ word closing : Token, word.kind = .keyword ∧
    a.2.stop = closing.span.stop ∧ List.Sublist [word, closing] ts

namespace TagsFollow

variable {ts us ws : List Token} {tags more : List (String × Span)}

theorem nil : TagsFollow ts [] :=
  ⟨.nil, nofun⟩

theorem mono (h : TagsFollow ts tags) (hs : List.Sublist ts us) : TagsFollow us tags := by
  refine ⟨h.apart, fun a ha => ?_⟩
  obtain ⟨word, closing, hword, hstop, hsub⟩ := h.among a ha
  exact ⟨word, closing, hword, hstop, hsub.trans hs⟩

/-- The keyword of a later tag stands between the ends of both. -/
theorem append (hws : Token.InOrder ws) (hs : List.Sublist (ts ++ us) ws)
    (h : TagsFollow ts tags) (h' : TagsFollow us more) : TagsFollow ws (tags ++ more) := by
  have hleft : TagsFollow ws tags := h.mono (sublist_of_left hs)
  have hright : TagsFollow ws more := h'.mono (sublist_of_right hs)
  refine ⟨List.pairwise_append.mpr ⟨h.apart, h'.apart, fun a ha b hb => ?_⟩,
    List.forall_mem_append.mpr ⟨hleft.among, hright.among⟩⟩
  obtain ⟨_, closing, -, hstop, hsub⟩ := h.among a ha
  obtain ⟨word, closing', hword, hstop', hsub'⟩ := h'.among b hb
  have hclosing : closing ∈ ts := hsub.subset (by simp)
  have hwordmem : word ∈ us := hsub'.subset List.mem_cons_self
  have hbefore : closing.span.stop.offset ≤ word.span.start.offset :=
    (List.pairwise_append.mp (hws.apart.sublist hs)).2.2 closing hclosing word hwordmem
  have hnonempty : word.span.start.offset < word.span.stop.offset :=
    hws.word word ((sublist_of_right hs).subset hwordmem) (by simp [hword, TokenKind.isWord])
  have hpair := (hws.sublist (hsub'.trans (sublist_of_right hs)))
  have hbehind : word.span.stop.offset ≤ closing'.span.start.offset :=
    List.rel_of_pairwise_cons hpair.apart (by simp)
  have hforward : closing'.span.start.offset ≤ closing'.span.stop.offset :=
    hpair.forward closing' (by simp)
  rw [hstop, hstop']
  omega

end TagsFollow

/-- The include tags of a piece follow one another. -/
theorem Composes.tagsFollow {ts : List Token} {x : Piece} (h : Composes ts x)
    (hts : Token.InOrder ts) : TagsFollow ts (x.walk.filterMap (·.inclusion?)) := by
  induction h with
  | output | assignment | empty | noArms => exact .nil
  | branch _ ih => exact ih hts
  | @inclusion ts word closing path span hword hstop hs =>
      refine ⟨List.pairwise_singleton _ _, ?_⟩
      intro a ha
      obtain rfl := List.mem_singleton.mp ha
      exact ⟨word, closing, hword, hstop, hs⟩
  | @loop ts us vs ws targets e body otherwise span _ _ _ hs ihb iho =>
      have hbody := ihb (hts.sublist (sublist_of_middle hs))
      have hother := iho (hts.sublist (sublist_of_right hs))
      have hsub : List.Sublist (us ++ vs) ws := by
        rw [List.append_assoc] at hs
        exact sublist_of_right hs
      have happend := hbody.append hts hsub hother
      rwa [← List.filterMap_append] at happend
  | definition _ _ hs ih | callBlock _ _ hs ih =>
      exact (ih (hts.sublist (sublist_of_right hs))).mono (sublist_of_right hs)
  | text _ _ hs ih =>
      have hns := (ih (hts.sublist (sublist_of_left hs))).mono (sublist_of_left hs)
      rw [Piece.walk, Template.walkAll_append, List.filterMap_append]
      rwa [show (walkAll [Node.text _ _]).filterMap (·.inclusion?) = [] from rfl, List.append_nil]
  | append _ _ hs ihns ihn =>
      rw [Piece.walk, Template.walkAll_append, List.filterMap_append, walkAll, walkAll,
        List.append_nil]
      exact (ihns (hts.sublist (sublist_of_left hs))).append hts hs
        (ihn (hts.sublist (sublist_of_right hs)))
  | @arm ts us _ _ _ _ _ _ _ _ _ hs iha ihb =>
      rw [Piece.walk, Template.walkArms_append, List.filterMap_append, walkArms, walkArms,
        List.append_nil]
      have harms := (iha (hts.sublist (sublist_of_left (sublist_of_left hs)))).mono
        (List.sublist_append_left ts us)
      exact harms.append hts hs (ihb (hts.sublist (sublist_of_right hs)))

/-- A tag is known by its span. -/
theorem includeTags_unique {setting : Parser.Setting} {delimiters : Delimiters} {source : String}
    {parsed : Parsed} (h : parse setting delimiters source = .ok parsed)
    {a b : String × Span} (ha : a ∈ Compiler.includeTags parsed.template)
    (hb : b ∈ Compiler.includeTags parsed.template) (hspan : a.2 = b.2) : a = b := by
  rw [Compiler.includeTags_eq] at ha hb
  have hfollow := (parse_composes h).tagsFollow (tokenize_inOrder _ _ _)
  have hnodup : (((walkAll parsed.template.body).filterMap (·.inclusion?)).map Prod.snd).Nodup := by
    refine List.pairwise_map.mpr (hfollow.apart.imp ?_)
    intro a b hlt heq
    rw [heq] at hlt
    exact Nat.lt_irrefl _ hlt
  exact List.inj_on_of_nodup_map hnodup ha hb hspan

/-! ## Included programs -/

namespace Generator

variable {g : Generator}

/-- An operation comes from a node that names it: every inclusion in it is that of an include tag
among the nodes, with the program that is found under the span of the tag. -/
def IncludesFrom (g : Generator) (ns : List Node) (op : Program.Operation) : Prop :=
  ∀ path program span, (Program.Operation.inclusion path program span).Within op →
    .inclusion path span ∈ walkAll ns ∧ g.includes.lookup span = some program

theorem IncludesFrom.mono {ns ms : List Node} {op : Program.Operation} (h : g.IncludesFrom ns op)
    (hmem : ∀ n ∈ walkAll ns, n ∈ walkAll ms) : g.IncludesFrom ms op := by
  intro path program span hin
  obtain ⟨hn, hprogram⟩ := h path program span hin
  exact ⟨hmem _ hn, hprogram⟩

theorem block_includesFrom {ns : List Node}
    (hns : ∀ n ∈ ns, ∀ op, g.operation? n = .ok (some op) → g.IncludesFrom [n] op)
    {ops : List Program.Operation} (h : g.block ns = .ok ops) :
    ∀ op ∈ ops, g.IncludesFrom ns op := by
  intro op hop
  obtain ⟨os, hos, hjoin⟩ := g.block_eq_ok_iff.mp h
  rcases mem_of_joinLiterals hjoin hop with ⟨text, s, rfl⟩ | hmem
  · intro path program span hin
    cases hin
  · obtain ⟨o, ho, rfl⟩ := List.mem_filterMap.mp hmem
    obtain ⟨n, hn, hop⟩ := exists_of_mem_sequence hos ho
    refine (hns n hn op hop).mono fun x hx => ?_
    rw [walkAll, walkAll, List.append_nil] at hx
    rw [Template.walkAll_eq_flatMap]
    exact List.mem_flatMap.mpr ⟨n, hn, hx⟩

theorem operation?_includesFrom (n : Node) {op : Program.Operation}
    (h : g.operation? n = .ok (some op)) : g.IncludesFrom [n] op := by
  have hwalk : ∀ (n : Node) {ns : List Node}, (∀ m ∈ ns, m ∈ n.children) →
      ∀ x ∈ walkAll ns, x ∈ walkAll [n] := by
    intro n ns hchildren x hx
    rw [Template.walkAll_eq_flatMap] at hx
    obtain ⟨m, hm, hx⟩ := List.mem_flatMap.mp hx
    rw [walkAll, walkAll, List.append_nil]
    exact Node.mem_walk_of_child (hchildren m hm) hx
  induction n using Node.parts_induction generalizing op with
  | text value s => cases g.operation?_eq_some_iff.mp h with | literal => rintro _ _ _ ⟨⟩
  | output e s =>
      cases g.operation?_eq_some_iff.mp h with
      | invoke => rintro _ _ _ ⟨⟩
      | emit => rintro _ _ _ ⟨⟩
  | assignment name e s => cases g.operation?_eq_some_iff.mp h with | store => rintro _ _ _ ⟨⟩
  | definition d ih => cases g.operation?_eq_some_iff.mp h
  | inclusion path s =>
      cases g.operation?_eq_some_iff.mp h with
      | inclusion hp =>
          rintro _ _ _ ⟨⟩
          exact ⟨List.mem_singleton_self _, hp⟩
  | branch arms s ih =>
      cases g.operation?_eq_some_iff.mp h with
      | branch harms =>
          intro path program span hin
          cases hin with
          | arm harm' hop hin =>
              obtain ⟨a, ha, harm'⟩ := exists_of_mem_sequence harms harm'
              simp only [arm, Except.bind_eq_ok_iff] at harm'
              obtain ⟨condition, -, ops, hops, heq⟩ := harm'
              obtain rfl := Except.ok.inj heq
              have hbody := block_includesFrom (fun m hm _ => ih a ha m hm) hops _ hop
              refine hbody.mono (hwalk _ fun m hm => ?_) path program span hin
              exact List.mem_flatMap.mpr ⟨a, ha, hm⟩
  | loop targets e body otherwise s ihb iho =>
      cases g.operation?_eq_some_iff.mp h with
      | loop _ hbody hother =>
          intro path program span hin
          cases hin with
          | body hop hin =>
              have hops := block_includesFrom (fun m hm _ => ihb m hm) hbody _ hop
              refine hops.mono (hwalk _ fun m hm => ?_) path program span hin
              exact List.mem_append_left _ hm
          | otherwise hop hin =>
              have hops := block_includesFrom (fun m hm _ => iho m hm) hother _ hop
              refine hops.mono (hwalk _ fun m hm => ?_) path program span hin
              exact List.mem_append_right _ hm
  | callBlock call body s ih =>
      cases g.operation?_eq_some_iff.mp h with
      | callBlock _ hops =>
          intro path program span hin
          cases hin with
          | caller hop hin =>
              have hbody := block_includesFrom (fun m hm _ => ih m hm) hops _ hop
              exact hbody.mono (hwalk (.callBlock call body s) fun m hm => hm) path program span hin

/-- Every inclusion in a program stands for an include tag of the template. -/
theorem program_includesFrom {t : Template} {includes : Inclusions} {escaper unit : String}
    {program : Program} (h : (ofTemplate t includes escaper).program t unit = .ok program)
    {path : String} {included : Program} {span : Span}
    (hop : program.HasOperation (.inclusion path included span)) :
    (path, span) ∈ Compiler.includeTags t ∧ includes.lookup span = some included := by
  obtain ⟨hmacros, hops⟩ := program_spec h
  have hblock : ∀ {ns ops}, (ofTemplate t includes escaper).block ns = .ok ops →
      (∀ n ∈ walkAll ns, n ∈ walkAll t.body) → ∀ op ∈ ops,
        (ofTemplate t includes escaper).IncludesFrom t.body op :=
    fun hops hmem op hop =>
      (block_includesFrom (fun n _ _ => operation?_includesFrom n) hops op hop).mono hmem
  have hfrom :
      Node.inclusion path span ∈ walkAll t.body ∧ includes.lookup span = some included := by
    cases hop with
    | main hop hin => exact hblock hops (fun _ hn => hn) _ hop path included span hin
    | defined hm hop hin =>
        obtain ⟨d, hd, hmacro⟩ := exists_of_mem_sequence hmacros hm
        refine hblock (macroProgram_spec hmacro).2.2 (fun n hn => ?_) _ hop path included span hin
        refine Template.mem_walkAll_trans (t.mem_macroTable hd) ?_
        exact List.mem_cons_of_mem _ hn
  refine ⟨?_, hfrom.2⟩
  rw [Compiler.includeTags_eq]
  exact List.mem_filterMap.mpr ⟨_, hfrom.1, rfl⟩

end Generator

end TemplateCompiler
