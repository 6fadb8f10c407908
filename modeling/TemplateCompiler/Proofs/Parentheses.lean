import TemplateCompiler.Proofs.PrintedText

/-!
# Parentheses among lexemes

Two readings of the same lexemes may put parentheses to different use: around an operand, or around
arguments. They still cut the lexemes at the same places. What stands between two cuts is balanced,
so parentheses that are open at a cut of one reading are open in the other; and all lexemes but
parentheses belong to the expression that is read, so their number (`bulk`) tells how far an operand
reaches. Both hold of what the grammar derives and of what is printed.
-/

namespace TemplateCompiler

open Template (Expr bareExprs bareNamed printedAll printedNamed)
open TemplateCompiler.Parser (Level)

/-! ## Depth -/

/-- What a lexeme of the kind adds to the number of open parentheses. -/
def TokenKind.turn : TokenKind → Int
  | .leftParen => 1
  | .rightParen => -1
  | _ => 0

def Lexeme.turn (l : Lexeme) : Int :=
  l.1.turn

@[simp]
theorem Lexeme.turn_mk (kind : TokenKind) (value : String) :
    Lexeme.turn (kind, value) = kind.turn :=
  rfl

@[simp]
theorem Token.turn_lexeme (t : Token) : Lexeme.turn t.lexeme = t.kind.turn :=
  rfl

/-- How many more parentheses are opened than closed. -/
def depth : List Lexeme → Int
  | [] => 0
  | l :: ls => l.turn + depth ls

/-- The number of lexemes that are no parentheses. -/
def bulk (ls : List Lexeme) : Nat :=
  ls.countP fun l => l.turn = 0

section

variable (l : Lexeme) (ls ms : List Lexeme)

@[simp]
theorem depth_nil : depth [] = 0 :=
  rfl

@[simp]
theorem depth_cons : depth (l :: ls) = l.turn + depth ls :=
  rfl

@[simp]
theorem depth_append : depth (ls ++ ms) = depth ls + depth ms := by
  induction ls with
  | nil => exact (Int.zero_add _).symm
  | cons l ls ih => rw [List.cons_append, depth_cons, depth_cons, ih, Int.add_assoc]

@[simp]
theorem bulk_nil : bulk [] = 0 :=
  rfl

@[simp]
theorem bulk_cons : bulk (l :: ls) = bulk ls + if l.turn = 0 then 1 else 0 := by
  simp [bulk, List.countP_cons]

@[simp]
theorem bulk_append : bulk (ls ++ ms) = bulk ls + bulk ms := by
  simp [bulk]

@[simp]
theorem bulk_parenthesized : bulk (parenthesized ls) = bulk ls := by
  simp [parenthesized, TokenKind.turn]

end

theorem bulk_commaSeparated (items : List (List Lexeme)) :
    bulk (commaSeparatedLexemes items) = bulk items.flatten + (items.length - 1) := by
  induction items with
  | nil => rfl
  | cons item items ih =>
      cases items with
      | nil => simp [commaSeparatedLexemes]
      | cons next items =>
          have hcomma : Lexeme.turn (.comma, ",") = 0 := rfl
          rw [commaSeparatedLexemes, bulk_append, bulk_cons, if_pos hcomma, ih,
            List.flatten_cons (l := item), bulk_append]
          simp only [List.length_cons]
          omega

@[simp]
theorem Literal.turn_lexeme (value : Literal) : value.lexeme.turn = 0 := by
  cases value <;> rfl

theorem BinaryOperator.turn_eq_zero (op : BinaryOperator) :
    ∀ l ∈ op.lexemes, Lexeme.turn l = 0 := by
  cases op <;> decide

theorem UnaryOperator.turn_eq_zero (op : UnaryOperator) : Lexeme.turn op.lexeme = 0 := by
  cases op <;> rfl

/-! ## Balance -/

/-- Every parenthesis that is opened is closed, and none is closed before. -/
structure Balanced (ls : List Lexeme) : Prop where
  closed : depth ls = 0
  opened : ∀ us, us <+: ls → 0 ≤ depth us

namespace Balanced

variable {l opening closing : Lexeme} {ls ms : List Lexeme}

theorem nil : Balanced [] := by
  refine ⟨rfl, fun us hus => ?_⟩
  rw [List.prefix_nil.mp hus]
  exact Int.le_refl _

theorem append (h : Balanced ls) (h' : Balanced ms) : Balanced (ls ++ ms) := by
  refine ⟨by rw [depth_append, h.closed, h'.closed]; rfl, fun us hus => ?_⟩
  obtain ⟨vs, hvs⟩ := hus
  rcases List.append_eq_append_iff.mp hvs with ⟨ws, rfl, -⟩ | ⟨ws, rfl, hms⟩
  · exact h.opened us (List.prefix_append _ _)
  · have hrest := h'.opened ws ⟨vs, hms.symm⟩
    rw [depth_append, h.closed]
    omega

/-- What is left behind a balanced part is balanced. -/
theorem of_append (h : Balanced (ls ++ ms)) (h' : Balanced ls) : Balanced ms := by
  refine ⟨?_, fun us hus => ?_⟩
  · have hclosed := h.closed
    rwa [depth_append, h'.closed, Int.zero_add] at hclosed
  · have hfirst := h.opened (ls ++ us) ((List.prefix_append_right_inj ls).mpr hus)
    rwa [depth_append, h'.closed, Int.zero_add] at hfirst

theorem single (hl : l.turn = 0) : Balanced [l] := by
  refine ⟨by simp [hl], fun us hus => ?_⟩
  rcases List.prefix_cons_iff.mp hus with rfl | ⟨vs, rfl, hvs⟩
  · exact Int.le_refl _
  · rw [List.prefix_nil.mp hvs, depth_cons, hl]
    exact Int.le_refl _

theorem cons (hl : l.turn = 0) (h : Balanced ls) : Balanced (l :: ls) :=
  (single hl).append h

theorem of_plain (h : ∀ l ∈ ls, Lexeme.turn l = 0) : Balanced ls := by
  induction ls with
  | nil => exact nil
  | cons l ls ih =>
      obtain ⟨hl, hls⟩ := List.forall_mem_cons.mp h
      exact cons hl (ih hls)

theorem enclosed (h : Balanced ls) (hopen : opening.turn = 1) (hclose : closing.turn = -1) :
    Balanced (opening :: (ls ++ [closing])) := by
  refine ⟨by simp [hopen, hclose, h.closed], fun us hus => ?_⟩
  rcases List.prefix_cons_iff.mp hus with rfl | ⟨vs, rfl, hvs⟩
  · exact Int.le_refl _
  · rw [depth_cons, hopen]
    rcases List.prefix_concat_iff.mp hvs with rfl | hvs
    · rw [depth_append, h.closed, depth_cons, hclose]
      decide
    · have hrest := h.opened vs hvs
      omega

theorem parenthesized (h : Balanced ls) : Balanced (parenthesized ls) :=
  h.enclosed rfl rfl

theorem commaSeparated {items : List (List Lexeme)} (h : ∀ item ∈ items, Balanced item) :
    Balanced (commaSeparatedLexemes items) := by
  induction items with
  | nil => exact nil
  | cons item items ih =>
      obtain ⟨hitem, hitems⟩ := List.forall_mem_cons.mp h
      cases items with
      | nil => exact hitem
      | cons next items => exact hitem.append (cons rfl (ih hitems))

end Balanced

/-! ## Cuts -/

section

variable {as bs rs ss us : List Lexeme} {a b : Lexeme}

/-- A lexeme with no less on either side than another one is in the same place. -/
theorem cut_of_bulk_le (h : as ++ a :: bs = rs ++ b :: ss) (ha : a.turn = 0)
    (hfirst : bulk rs ≤ bulk as) (hrest : bulk ss ≤ bulk bs) : as = rs ∧ bs = ss := by
  rcases List.append_eq_append_iff.mp h with ⟨zs, hrs, hzs⟩ | ⟨zs, has, hzs⟩
  · cases zs with
    | nil =>
        obtain ⟨-, rfl⟩ := List.cons.inj hzs
        exact ⟨by rw [hrs, List.append_nil], rfl⟩
    | cons c zs =>
        obtain ⟨rfl, -⟩ := List.cons.inj hzs
        rw [hrs, bulk_append, bulk_cons, if_pos ha] at hfirst
        omega
  · cases zs with
    | nil =>
        obtain ⟨-, rfl⟩ := List.cons.inj hzs
        exact ⟨by rw [has, List.append_nil], rfl⟩
    | cons c zs =>
        have hss : ss = zs ++ a :: bs := (List.cons.inj hzs).2
        rw [hss, bulk_append, bulk_cons, if_pos ha] at hrest
        omega

/-- The last of a pair of outer parentheses does not close what is opened in front of a cut. -/
theorem eq_nil_of_enclosed {opening closing : Lexeme}
    (h : opening :: (rs ++ [closing]) = as ++ bs) (hopen : opening.turn = 1) (has : Balanced as)
    (hrs : Balanced rs) (hbs : bs ≠ []) : as = [] := by
  cases as with
  | nil => rfl
  | cons a as =>
      exfalso
      obtain ⟨b, ss, rfl⟩ := List.exists_cons_of_ne_nil hbs
      have hfirst : opening = a := (List.cons.inj h).1
      have htail : rs ++ [closing] = as ++ b :: ss := (List.cons.inj h).2
      have hprefix : as <+: rs := by
        have hlength := congrArg List.length htail
        simp only [List.length_append, List.length_cons, List.length_nil] at hlength
        refine List.prefix_of_prefix_length_le ⟨b :: ss, htail.symm⟩ (List.prefix_append _ _) ?_
        omega
      have hopened := hrs.opened as hprefix
      have hclosed := has.closed
      rw [depth_cons, ← hfirst, hopen] at hclosed
      omega

/-- Behind balanced lexemes, the parentheses that the last one closes are the same. -/
theorem cut_of_balanced {a' b' : Lexeme} (h : as ++ a :: (rs ++ [a']) = bs ++ b :: (ss ++ [b']))
    (ha : a.turn = 1) (hb : b.turn = 1) (has : Balanced as) (hbs : Balanced bs)
    (hrs : Balanced rs) (hss : Balanced ss) : as = bs ∧ rs = ss := by
  have hinside : a :: (rs ++ [a']) = b :: (ss ++ [b']) → rs = ss := fun h =>
    (List.append_inj' (List.cons.inj h).2 rfl).1
  rcases List.append_eq_append_iff.mp h with ⟨zs, rfl, hzs⟩ | ⟨zs, rfl, hzs⟩
  · obtain rfl := eq_nil_of_enclosed hzs ha (hbs.of_append has) hrs (List.cons_ne_nil _ _)
    exact ⟨(List.append_nil as).symm, hinside hzs⟩
  · obtain rfl := eq_nil_of_enclosed hzs hb (has.of_append hbs) hss (List.cons_ne_nil _ _)
    exact ⟨List.append_nil bs, hinside hzs.symm⟩

/-- The comma behind the first item is the first that is behind as much as is in the item. -/
theorem cut_of_comma {item : List Lexeme} {items : List (List Lexeme)}
    (h : as ++ a :: bs = commaSeparatedLexemes (item :: items)) (ha : a.turn = 0)
    (hfirst : bulk item ≤ bulk as) (hrest : bulk (commaSeparatedLexemes items) ≤ bulk bs) :
    as = item ∧ bs = commaSeparatedLexemes items := by
  cases items with
  | nil =>
      have htotal := congrArg bulk h
      rw [bulk_append, bulk_cons, if_pos ha, commaSeparatedLexemes] at htotal
      omega
  | cons next items => exact cut_of_bulk_le h ha hfirst hrest

end

/-! ## What is printed -/

namespace Template

theorem printedAll_bareExprs {es : List Expr} (h : ∀ e ∈ es, e.bare.printed = e.printed) :
    printedAll (bareExprs es) = printedAll es := by
  induction es with
  | nil => rfl
  | cons e es ih =>
      obtain ⟨he, hes⟩ := List.forall_mem_cons.mp h
      rw [bareExprs, printedAll, printedAll, he, ih hes]

theorem printedNamed_bareNamed {as : List (NamedArgument Expr)}
    (h : ∀ a ∈ as, a.value.bare.printed = a.value.printed) :
    printedNamed (bareNamed as) = printedNamed as := by
  induction as with
  | nil => rfl
  | cons a as ih =>
      obtain ⟨ha, has⟩ := List.forall_mem_cons.mp h
      rw [bareNamed, printedNamed, printedNamed, ha, ih has]

/-- No place is printed. -/
theorem Expr.printed_bare (e : Expr) : e.bare.printed = e.printed := by
  induction e using Expr.parts_induction with
  | literal value s => rfl
  | var name s => rfl
  | binary op l r s ihl ihr => rw [bare, printed, printed, ihl, ihr]
  | unary op e s ih => rw [bare, printed, printed, ih]
  | filter name e args s ihe iha =>
      have hempty : (bareExprs args).isEmpty = args.isEmpty := by cases args <;> rfl
      rw [bare, printed, printed, ihe, hempty, printedAll_bareExprs iha]
  | index e p s ihe ihp => rw [bare, printed, printed, ihe, ihp]
  | member e name s ih => rw [bare, printed, printed, ih]
  | call f args named as s ihf iha ihn =>
      rw [bare, printed, printed, ihf, printedAll_bareExprs iha, printedNamed_bareNamed ihn]

end Template

theorem balanced_arguments {args : List Expr} {named : List (NamedArgument Expr)}
    (hargs : ∀ e ∈ args, Balanced e.printed) (hnamed : ∀ a ∈ named, Balanced a.value.printed) :
    Balanced (commaSeparatedLexemes (printedAll args ++ printedNamed named)) := by
  refine .commaSeparated ?_
  rw [Template.printedAll_eq_map, Template.printedNamed_eq_map, List.forall_mem_append,
    List.forall_mem_map, List.forall_mem_map]
  exact ⟨hargs, fun a ha => .cons rfl (.cons rfl (hnamed a ha))⟩

theorem Template.Expr.printed_balanced (e : Expr) : Balanced e.printed := by
  induction e using Expr.parts_induction with
  | literal value s => exact .single value.turn_lexeme
  | var name s => exact .single rfl
  | binary op l r s ihl ihr =>
      exact ((ihl.append (.of_plain op.turn_eq_zero)).append ihr).parenthesized
  | unary op e s ih => exact .cons op.turn_eq_zero ih
  | filter name e args s ihe iha =>
      refine ihe.append (.cons rfl (.cons rfl ?_))
      split
      · exact .nil
      · have hargs := @balanced_arguments args [] iha (List.forall_mem_nil _)
        rw [printedNamed, List.append_nil] at hargs
        exact hargs.parenthesized
  | index e p s ihe ihp => exact ihe.append (.cons rfl (ihp.append (.single rfl)))
  | member e name s ih => exact ih.append (.of_plain (by simp [TokenKind.turn]))
  | call f args named as s ihf iha ihn =>
      exact ihf.append (balanced_arguments iha ihn).parenthesized

/-! ## What is denoted -/

/-- The parentheses of the grammar come in pairs. -/
theorem Denotes.balanced {ts : List Token} {x : Phrase} (h : Denotes ts x) :
    Balanced (ts.map Token.lexeme) := by
  induction h with
  | tighter _ _ ih | positional _ ih | last _ ih => exact ih
  | @binary ts os us op _ _ _ _ ho _ _ ihl ihr =>
      rw [List.map_append, List.map_append, ho]
      exact (ihl.append (.of_plain op.turn_eq_zero)).append ihr
  | @unary t ts op e ht _ ih => exact .cons (ht ▸ op.turn_eq_zero) ih
  | member _ hfirst hsecond ih | filter _ hfirst hsecond ih =>
      rw [List.map_append]
      exact ih.append (.cons (congrArg TokenKind.turn hfirst)
        (.single (congrArg TokenKind.turn hsecond)))
  | index _ hopen _ hclose ih ihp =>
      rw [List.map_append, List.map_cons, List.map_append]
      exact ih.append (.cons (congrArg TokenKind.turn hopen)
        (ihp.append (.single (congrArg TokenKind.turn hclose))))
  | call _ _ hopen _ hclose ih iha =>
      rw [List.map_append, List.map_cons, List.map_append]
      exact ih.append
        (iha.enclosed (congrArg TokenKind.turn hopen) (congrArg TokenKind.turn hclose))
  | filterWith _ hpipe hname hopen _ hclose ih iha =>
      rw [List.map_append, List.map_cons, List.map_cons, List.map_cons, List.map_append]
      exact ih.append (.cons (congrArg TokenKind.turn hpipe)
        (.cons (congrArg TokenKind.turn hname)
          (iha.enclosed (congrArg TokenKind.turn hopen) (congrArg TokenKind.turn hclose))))
  | name ht | string ht | number ht _ | constant ht _ =>
      exact .single (congrArg TokenKind.turn ht)
  | paren hopen _ hclose ih =>
      rw [List.map_cons, List.map_append]
      exact ih.enclosed (congrArg TokenKind.turn hopen) (congrArg TokenKind.turn hclose)
  | named hname hequals _ ih =>
      exact .cons (congrArg TokenKind.turn hname) (.cons (congrArg TokenKind.turn hequals) ih)
  | none => exact .nil
  | more _ hcomma _ ih ihmore =>
      rw [List.map_append]
      exact ih.append (.cons (congrArg TokenKind.turn hcomma) ihmore)

/-- The bulk of what is printed for a phrase. -/
def Phrase.bulk : Phrase → Nat
  | .expr _ e => TemplateCompiler.bulk e.printed
  | .argument args named | .leading args named | .arguments args named =>
    TemplateCompiler.bulk (commaSeparatedLexemes (printedAll args ++ printedNamed named))

/-- No less is read for a phrase than is printed for it: what is left out is parentheses and a comma
behind the last argument. -/
theorem Denotes.bulk_le {ts : List Token} {x : Phrase} (h : Denotes ts x) :
    x.bulk ≤ bulk (ts.map Token.lexeme) := by
  induction h with
  | tighter _ _ ih | last _ ih => exact ih
  | binary _ ho _ _ ihl ihr =>
      simp only [Phrase.bulk, Expr.printed, bulk_parenthesized, bulk_append, List.map_append,
        ho] at ihl ihr ⊢
      omega
  | unary ht _ ih =>
      simp only [Phrase.bulk, Expr.printed, bulk_cons, List.map_cons, ht] at ih ⊢
      omega
  | member _ hfirst hsecond ih | filter _ hfirst hsecond ih =>
      simpa [Phrase.bulk, Expr.printed, TokenKind.turn, hfirst, hsecond] using ih
  | index _ hopen _ hclose ih ihp =>
      simp only [Phrase.bulk, Expr.printed, bulk_append, bulk_cons, bulk_nil, List.map_append,
        List.map_cons, List.map_nil, Lexeme.turn_mk, Token.turn_lexeme, hopen, hclose,
        TokenKind.turn, if_true] at ih ihp ⊢
      omega
  | call _ _ hopen _ hclose ih iha =>
      simp only [Phrase.bulk, Expr.printed, bulk_parenthesized, bulk_append, bulk_cons,
        List.map_append, List.map_cons] at ih iha ⊢
      omega
  | @filterWith ts us e args pipe name opening closing _ hpipe hname _ _ _ ih iha =>
      have hargs : bulk (if args.isEmpty then []
          else parenthesized (commaSeparatedLexemes (printedAll args))) ≤
            bulk (us.map Token.lexeme) := by
        split
        · exact Nat.zero_le _
        · simpa [Phrase.bulk, printedNamed] using iha
      simp only [Phrase.bulk, Expr.printed, bulk_append, bulk_cons, List.map_append,
        List.map_cons, Lexeme.turn_mk, Token.turn_lexeme, hpipe, hname, TokenKind.turn,
        if_true] at ih ⊢
      omega
  | name ht | string ht | number ht _ | constant ht _ =>
      simp [Phrase.bulk, Expr.printed, TokenKind.turn, ht]
  | paren hopen _ hclose ih => simpa [Phrase.bulk, TokenKind.turn, hopen, hclose] using ih
  | positional _ ih => exact ih
  | named hname hequals _ ih =>
      simpa [Phrase.bulk, printedAll, printedNamed, commaSeparatedLexemes, TokenKind.turn, hname,
        hequals] using ih
  | none => exact Nat.le_refl _
  | more _ hcomma _ ih ihmore =>
      simp only [Phrase.bulk, bulk_commaSeparated, Template.printedAll_eq_map,
        Template.printedNamed_eq_map, List.map_append, List.flatten_append, List.length_append,
        List.length_map, bulk_append, bulk_cons, List.map_cons, Token.turn_lexeme, hcomma,
        TokenKind.turn, if_true] at ih ihmore ⊢
      omega

theorem Denotes.bulk_expr_le {ts : List Token} {level : Level} {e : Expr}
    (h : Denotes ts (.expr level e.bare)) : bulk e.printed ≤ bulk (ts.map Token.lexeme) := by
  have hle := h.bulk_le
  rwa [Phrase.bulk, e.printed_bare] at hle

theorem Denotes.bulk_arguments_le {ts : List Token} {args : List Expr}
    {named : List (NamedArgument Expr)}
    (h : Denotes ts (.arguments (bareExprs args) (bareNamed named))) :
    bulk (commaSeparatedLexemes (printedAll args ++ printedNamed named)) ≤
      bulk (ts.map Token.lexeme) := by
  have hle := h.bulk_le
  rwa [Phrase.bulk, Template.printedAll_bareExprs fun e _ => e.printed_bare,
    Template.printedNamed_bareNamed fun a _ => a.value.printed_bare] at hle

end TemplateCompiler
