import TemplateCompiler.Proofs.Places
import TemplateCompiler.Proofs.RoundTrip
import TemplateCompiler.Template.Printer

/-!
# What is printed is scanned

A printed expression has spaces around its infix operators, behind commas and behind `not`, and
nowhere else. What may stand behind a part of it is enough for the scanner to tell its lexemes
apart, so it reads `Expr.printed`.

Strings are the exception: a character that cannot be shown is printed as a numeric escape, which no
template knows. So the text of an expression is read to its end exactly if no string in it has such
a character (`Expr.Shown`), and else a fault ends the tokens. `Gives` says both at once, so that one
rule for each way to put texts together is enough.
-/

namespace TemplateCompiler

open Template (Expr)

/-! ## Lexemes -/

namespace Template

mutual

/-- The lexemes of a printed expression. Infix operators stand in parentheses, and nothing else
does. -/
def Expr.printed : Expr → List Lexeme
  | .literal value _ => [value.lexeme]
  | .var name _ => [(.identifier, name)]
  | .binary op left right _ => parenthesized (left.printed ++ op.lexemes ++ right.printed)
  | .unary op operand _ => op.lexeme :: operand.printed
  | .filter name value args _ =>
    value.printed ++ (.pipe, "|") :: (.identifier, name) ::
      if args.isEmpty then [] else parenthesized (commaSeparatedLexemes (printedAll args))
  | .index value position _ =>
    value.printed ++ (.leftBracket, "[") :: (position.printed ++ [(.rightBracket, "]")])
  | .attribute value name _ => value.printed ++ [(.dot, "."), (.identifier, name)]
  | .call func args named _ _ =>
    func.printed ++
      parenthesized (commaSeparatedLexemes (printedAll args ++ printedNamed named))

def printedAll : List Expr → List (List Lexeme)
  | [] => []
  | e :: es => e.printed :: printedAll es

def printedNamed : List (NamedArgument Expr) → List (List Lexeme)
  | [] => []
  | a :: as =>
    ((.identifier, a.name) :: (.equals, "=") :: a.value.printed) :: printedNamed as

end

theorem printedAll_eq_map (es : List Expr) : printedAll es = es.map Expr.printed := by
  induction es with
  | nil => rfl
  | cons e es ih => rw [printedAll, ih, List.map_cons]

theorem printedNamed_eq_map (as : List (NamedArgument Expr)) :
    printedNamed as =
      as.map fun a => (.identifier, a.name) :: (.equals, "=") :: a.value.printed := by
  induction as with
  | nil => rfl
  | cons a as ih => rw [printedNamed, ih, List.map_cons]

theorem printAll_eq_map (es : List Expr) : printAll es = es.map Expr.print := by
  induction es with
  | nil => rfl
  | cons e es ih => rw [printAll, ih, List.map_cons]

theorem printNamed_eq_map (as : List (NamedArgument Expr)) :
    printNamed as = as.map fun a => s!"{a.name}={a.value.print}" := by
  induction as with
  | nil => rfl
  | cons a as ih => rw [printNamed, ih, List.map_cons]

end Template

/-! ## Strings -/

/-- The character is printed as itself, or by an escape that templates know. -/
def Text.IsKnown (c : Char) : Prop :=
  isPrintable c ∨ c ∈ ['\n', '\r', '\t']

instance (c : Char) : Decidable (Text.IsKnown c) :=
  inferInstanceAs (Decidable (_ ∨ _))

def Literal.Shown : Literal → Prop
  | .string value => ∀ c ∈ value.toList, Text.IsKnown c
  | _ => True

instance : DecidablePred Literal.Shown
  | .string value => inferInstanceAs (Decidable (∀ c ∈ value.toList, Text.IsKnown c))
  | .integer _ | .real _ | .boolean _ | .none => inferInstanceAs (Decidable True)

namespace Template.Expr

def ShownHere : Expr → Prop
  | .literal value _ => value.Shown
  | _ => True

/-- Every string in the expression can be read from what is printed. -/
def Shown (e : Expr) : Prop :=
  e.Throughout ShownHere

instance : DecidablePred ShownHere
  | .literal value _ => inferInstanceAs (Decidable value.Shown)
  | .var .. | .binary .. | .unary .. | .filter .. | .index .. | .attribute .. | .call .. =>
    inferInstanceAs (Decidable True)

instance (e : Expr) : Decidable e.Shown :=
  inferInstanceAs (Decidable (e.Throughout ShownHere))

theorem shown_iff {e : Expr} : e.Shown ↔ e.ShownHere ∧ ∀ x ∈ e.children, x.Shown :=
  throughout_iff

end Template.Expr

namespace Scanner

section

variable {opened place : Position} {quote c : Char} {decoded text : List Char}

/-- A printed character is decoded, if it is known. -/
theorem stringBody_known (hquote : quote = '"' ∨ quote = '\'') (hc : Text.IsKnown c) :
    ∃ place', stringBody opened quote place decoded (Text.Quoted.escape quote c ++ text) =
      stringBody opened quote place' (c :: decoded) text := by
  have hslash : quote ≠ '\\' := by rcases hquote with rfl | rfl <;> decide
  unfold Text.Quoted.escape
  split
  · next hescaped =>
      have hdecoded : escaped? c = some c := by
        rw [Bool.or_eq_true, decide_eq_true_eq, decide_eq_true_eq] at hescaped
        rcases hescaped with rfl | rfl
        · rcases hquote with rfl | rfl <;> rfl
        · rfl
      exact ⟨_, stringBody_escaped hslash hdecoded⟩
  · next hplain =>
      rw [Bool.or_eq_true, decide_eq_true_eq, decide_eq_true_eq, not_or] at hplain
      split
      · next hline => exact ⟨_, stringBody_escaped hslash (hline ▸ rfl)⟩
      · split
        · next hreturn => exact ⟨_, stringBody_escaped hslash (hreturn ▸ rfl)⟩
        · split
          · next htab => exact ⟨_, stringBody_escaped hslash (htab ▸ rfl)⟩
          · next hline hreturn htab =>
              have hprintable : Text.isPrintable c = true :=
                hc.resolve_right (by simp [hline, hreturn, htab])
              have hnul : c ≠ '\x00' := by
                rintro rfl
                have hnot : Text.isPrintable '\x00' = false := by decide +kernel
                cases hnot.symm.trans hprintable
              rw [if_pos hprintable]
              exact ⟨_, stringBody_plain hplain.1 hplain.2 hnul⟩

/-- Any other character is printed as an escape that no string may have. -/
theorem stringBody_unknown (hquote : quote = '"' ∨ quote = '\'') (hc : ¬ Text.IsKnown c) :
    ∃ ends, stringBody opened quote place decoded (Text.Quoted.escape quote c ++ text) =
      .error (.unknownEscape ((Text.Quoted.numericEscape c).getD 1 ' '), ends) := by
  have hslash : quote ≠ '\\' := by rcases hquote with rfl | rfl <;> decide
  obtain ⟨hprintable, hrest⟩ := not_or.mp hc
  simp only [List.mem_cons, List.not_mem_nil, or_false, not_or] at hrest
  have hquotes : Text.isPrintable quote = true ∧ Text.isPrintable '\\' = true := by
    rcases hquote with rfl | rfl <;> decide +kernel
  have hplain : (decide (c = quote) || decide (c = '\\')) = false := by
    rw [Bool.or_eq_false_iff, decide_eq_false_iff_not, decide_eq_false_iff_not]
    exact ⟨fun h => hprintable (h ▸ hquotes.1), fun h => hprintable (h ▸ hquotes.2)⟩
  have hescape : Text.Quoted.escape quote c = Text.Quoted.numericEscape c := by
    unfold Text.Quoted.escape
    rw [hplain, if_neg (by decide), if_neg hrest.1, if_neg hrest.2.1, if_neg hrest.2.2,
      if_neg hprintable]
  obtain ⟨e, more, hchars, he⟩ : ∃ e more, Text.Quoted.numericEscape c = '\\' :: e :: more ∧
      escaped? e = none := by
    unfold Text.Quoted.numericEscape
    dsimp only
    split
    · exact ⟨_, _, rfl, rfl⟩
    · split <;> exact ⟨_, _, rfl, rfl⟩
  rw [hescape, hchars]
  refine ⟨(place, (place.next '\\').next e), ?_⟩
  rw [stringBody.eq_def]
  simp [hslash.symm, he]

end

/-- A printed string is decoded up to its closing quote. -/
theorem stringBody_printed {quote : Char} {value : List Char} (hquote : quote = '"' ∨ quote = '\'')
    (h : ∀ c ∈ value, Text.IsKnown c) (rest : List Char) (opened place : Position)
    (decoded : List Char) :
    stringBody opened quote place decoded
        (value.flatMap (Text.Quoted.escape quote) ++ quote :: rest) =
      .ok (decoded.reverse ++ value, rest) := by
  induction value generalizing place decoded with
  | nil => rw [List.flatMap_nil, List.nil_append, stringBody_quote, List.append_nil]
  | cons c value ih =>
      obtain ⟨hc, hvalue⟩ := List.forall_mem_cons.mp h
      rw [List.flatMap_cons, List.append_assoc]
      obtain ⟨place', hstep⟩ := stringBody_known hquote hc
      rw [hstep, ih hvalue, List.reverse_cons, List.append_assoc, List.singleton_append]

/-- The first character that is not known is a fault. -/
theorem stringBody_fails {quote : Char} {value : List Char} (hquote : quote = '"' ∨ quote = '\'')
    (h : ¬ ∀ c ∈ value, Text.IsKnown c) :
    ∃ problem, ∀ (rest : List Char) (opened place : Position) (decoded : List Char),
      ∃ ends, stringBody opened quote place decoded
        (value.flatMap (Text.Quoted.escape quote) ++ quote :: rest) = .error (problem, ends) := by
  induction value with
  | nil => exact absurd (List.forall_mem_nil _) h
  | cons c value ih =>
      simp only [List.flatMap_cons, List.append_assoc]
      by_cases hc : Text.IsKnown c
      · obtain ⟨problem, hfails⟩ := ih fun hvalue => h (List.forall_mem_cons.mpr ⟨hc, hvalue⟩)
        refine ⟨problem, fun rest opened place decoded => ?_⟩
        obtain ⟨place', hstep⟩ := stringBody_known hquote hc
        rw [hstep]
        exact hfails rest opened place' (c :: decoded)
      · exact ⟨_, fun rest opened place decoded => stringBody_unknown hquote hc⟩

/-! ## Pieces of printed text -/

/-- In front of a text that no lexeme goes on with, the lexemes are read if `shown` holds, and else
a fault is found. -/
structure Gives (shown : Prop) (text : List Char) (ls : List Lexeme) : Prop where
  passes : shown → ∀ {rest ms problem}, Apart rest → Scans .tag rest ms problem →
    Scans .tag (text ++ rest) (ls ++ ms) problem
  breaks : ¬ shown → ∀ {rest}, Apart rest →
    ∃ ms problem, Scans .tag (text ++ rest) ms (some problem)

namespace Gives

variable {shown shown' : Prop} {text text' : List Char} {ls ls' : List Lexeme}

theorem congr (h : Gives shown text ls) (hiff : shown ↔ shown') : Gives shown' text ls :=
  propext hiff ▸ h

theorem nil : Gives True [] [] where
  passes _ _ _ _ _ h := h
  breaks h := absurd trivial h

theorem written {l : Lexeme} (hl : l.Written text) : Gives True text [l] where
  passes _ _ _ _ hrest h := scans_written hl hrest h
  breaks h := absurd trivial h

/-- In front of text that is read or not. -/
theorem prepend {pre : List Char} {ms : List Lexeme} (h : Gives shown text ls)
    (hpre : ∀ {rest more problem}, Apart rest → Scans .tag (text ++ rest) more problem →
      Scans .tag (pre ++ (text ++ rest)) (ms ++ more) problem) :
    Gives shown (pre ++ text) (ms ++ ls) where
  passes hshown _ _ _ hrest hscans := by
    rw [List.append_assoc, List.append_assoc]
    exact hpre hrest (h.passes hshown hrest hscans)
  breaks hshown _ hrest := by
    obtain ⟨more, problem, hscans⟩ := h.breaks hshown hrest
    rw [List.append_assoc]
    exact ⟨_, problem, hpre hrest hscans⟩

theorem append (h : Gives shown text ls) (h' : Gives shown' text' ls')
    (hapart : ∀ {rest}, Apart rest → Apart (text' ++ rest)) :
    Gives (shown ∧ shown') (text ++ text') (ls ++ ls') where
  passes hshown _ _ _ hrest hscans := by
    rw [List.append_assoc, List.append_assoc]
    exact h.passes hshown.1 (hapart hrest) (h'.passes hshown.2 hrest hscans)
  breaks hshown rest hrest := by
    rw [List.append_assoc]
    by_cases hfirst : shown
    · obtain ⟨more, problem, hscans⟩ := h'.breaks (fun h => hshown ⟨hfirst, h⟩) hrest
      exact ⟨_, problem, h.passes hfirst (hapart hrest) hscans⟩
    · exact h.breaks hfirst (hapart hrest)

theorem cons {pre : List Char} {l : Lexeme} (h : Gives shown text ls)
    (hpre : ∀ {rest more problem}, Apart rest → Scans .tag (text ++ rest) more problem →
      Scans .tag (pre ++ (text ++ rest)) (l :: more) problem) :
    Gives shown (pre ++ text) (l :: ls) :=
  @prepend _ _ _ pre [l] h hpre

theorem blank (h : Gives shown text ls) : Gives shown (' ' :: text) ls :=
  @prepend _ _ _ [' '] [] h fun _ hscans => hscans.blank

theorem punctuation {c : Char} {kind : TokenKind} (h : Gives shown text ls)
    (hc : Token.punctuation? c = some kind) (hne : c ≠ '=') :
    Gives shown (c :: text) ((kind, String.ofList [c]) :: ls) :=
  @cons _ _ _ [c] _ h fun _ hscans => scans_punctuation hc (fun h => absurd h hne) hscans

end Gives

/-! ## What stands where -/

theorem apart_of_mem {c : Char} (hc : c ∈ [')', ']', '|', '[', '(', ',']) (rest : List Char) :
    Apart (c :: rest) := by
  have hall : ([')', ']', '|', '[', '(', ','].all fun c => Token.continuesIdentifier c = false ∧
      continuesNumber c = false ∧ c ∉ ['=', '/', '%', '\x7d'] ∧ c ≠ '.') = true := by
    decide +kernel
  obtain ⟨hword, hnumber, hsign, hpoint⟩ := of_decide_eq_true (List.all_eq_true.mp hall c hc)
  refine ⟨?_, ?_, fun d more h => absurd (List.cons.inj h).1 hpoint, ?_⟩
  · rintro _ ⟨⟩
    exact hword
  · rintro _ ⟨⟩
    exact hnumber
  · rintro _ ⟨⟩
    exact hsign

/-- A point in front of a name. -/
theorem apart_point {c : Char} (hc : Token.startsIdentifier c = true) (rest : List Char) :
    Apart ('.' :: c :: rest) where
  word := by
    rintro _ ⟨⟩
    decide +kernel
  number := by
    rintro _ ⟨⟩
    decide +kernel
  point := by
    rintro d more ⟨⟩
    by_contra hdigit
    rw [Bool.not_eq_false] at hdigit
    rw [Token.startsIdentifier_eq_false_of_isDigit hdigit] at hc
    cases hc
  sign := by
    rintro _ ⟨⟩
    decide

/-- The text starts as an expression does. -/
def Opens (text : List Char) : Prop :=
  ∃ c more, text = c :: more ∧
    (Token.startsIdentifier c = true ∨ Text.isDigit c = true ∨ c ∈ ['"', '\'', '(', '-', '+'])

theorem Opens.append {text : List Char} (h : Opens text) (more : List Char) :
    Opens (text ++ more) := by
  obtain ⟨c, rest, rfl, hc⟩ := h
  exact ⟨c, rest ++ more, rfl, hc⟩

theorem Opens.noSign {text : List Char} (h : Opens text) : NoSign text := by
  obtain ⟨c, more, rfl, hc⟩ := h
  have hall : (['=', '/', '%', '\x7d'].all fun c => Token.startsIdentifier c = false ∧
      Text.isDigit c = false ∧ c ∉ ['"', '\'', '(', '-', '+']) = true := by
    decide +kernel
  rintro _ ⟨⟩ hmem
  obtain ⟨hname, hdigit, hsign⟩ := of_decide_eq_true (List.all_eq_true.mp hall c hmem)
  rcases hc with hc | hc | hc
  · cases hname.symm.trans hc
  · cases hdigit.symm.trans hc
  · exact hsign hc

end Scanner

/-! ## Expressions -/

theorem BinaryOperator.toList_print (op : BinaryOperator) (left right : String) :
    (op.print left right).toList = '(' :: (left.toList ++ (' ' :: (op.sign.toList ++
      (' ' :: (right.toList ++ [')']))))) := by
  simp [BinaryOperator.print, ToString.toString]

theorem UnaryOperator.toList_print (op : UnaryOperator) (operand : String) :
    (op.print operand).toList =
      op.sign.toList ++ ((if op = .not then [' '] else []) ++ operand.toList) := by
  unfold UnaryOperator.print
  split <;> simp [ToString.toString]

section

variable (value name args : String)

theorem toList_member : (s!"{value}.{name}").toList = value.toList ++ '.' :: name.toList := by
  simp [ToString.toString]

theorem toList_index (position : String) :
    (s!"{value}[{position}]").toList = value.toList ++ '[' :: (position.toList ++ [']']) := by
  simp [ToString.toString]

theorem toList_call :
    (s!"{value}({args})").toList = value.toList ++ '(' :: (args.toList ++ [')']) := by
  simp [ToString.toString]

theorem toList_named : (s!"{name}={value}").toList = name.toList ++ '=' :: value.toList := by
  simp [ToString.toString]

theorem toList_filter : (s!"{value}|{name}").toList = value.toList ++ '|' :: name.toList := by
  simp [ToString.toString]

theorem toList_filterWith :
    (s!"{value}|{name}({args})").toList =
      (s!"{value}|{name}").toList ++ '(' :: (args.toList ++ [')']) := by
  simp [ToString.toString]

end

namespace Scanner

/-- An infix operator stands between spaces. -/
theorem scans_operatorBetween (op : BinaryOperator) {rest : List Char} {ls : List Lexeme}
    {problem : Option LexicalProblem} (h : Scans .tag (' ' :: rest) ls problem) :
    Scans .tag (op.sign.toList ++ ' ' :: rest) (op.lexemes ++ ls) problem := by
  have hword : ∀ {word : String} {rest : List Char} {ls : List Lexeme}, word ∈ Token.keywords →
      Scans .tag (' ' :: rest) ls problem →
      Scans .tag (word.toList ++ ' ' :: rest) ((.keyword, word) :: ls) problem :=
    fun hword h => scans_written (.keyword hword) (apart_blank _) h
  cases op with
  | or | and | isIn => exact hword (by decide) h
  | notIn =>
      exact @hword "not" ("in".toList ++ ' ' :: rest) _ (by decide) (hword (by decide) h).blank
  | _ => exact scans_written (.operator (by decide)) (apart_blank _) h

namespace Gives

variable {shown shown' : Prop} {text : List Char} {ls ls' : List Lexeme}

theorem closing {c : Char} {kind : TokenKind} (hc : Token.punctuation? c = some kind) :
    Gives True [c] [(kind, String.ofList [c])] :=
  .written (.punctuation hc)

theorem grouped (h : Gives shown text ls) :
    Gives shown ('(' :: (text ++ [')'])) (parenthesized ls) := by
  have hclosed := h.append (closing (c := ')') rfl) fun _ => apart_of_mem (by decide) _
  exact (hclosed.punctuation (c := '(') rfl (by decide)).congr (and_iff_left trivial)

theorem operator (op : BinaryOperator) (h : Gives shown text ls) :
    Gives shown (op.sign.toList ++ ' ' :: text) (op.lexemes ++ ls) :=
  h.blank.prepend fun _ hscans => scans_operatorBetween op hscans

theorem binary (op : BinaryOperator) {left right : String} (h : Gives shown left.toList ls)
    (h' : Gives shown' right.toList ls') :
    Gives (shown ∧ shown') (op.print left right).toList
      (parenthesized (ls ++ op.lexemes ++ ls')) := by
  have hinside := (h.append (h'.operator op).blank fun _ => apart_blank _).grouped
  rw [BinaryOperator.toList_print]
  simpa using hinside

theorem unary (op : UnaryOperator) {operand : String} (h : Gives shown operand.toList ls)
    (hopens : Opens operand.toList) :
    Gives shown (op.print operand).toList (op.lexeme :: ls) := by
  have hsign : ∀ {sign : String}, sign ∈ Token.operators →
      Gives shown (sign.toList ++ operand.toList) ((.operator, sign) :: ls) := fun hsign =>
    h.cons fun _ hscans => scans_operator hsign (hopens.append _).noSign hscans
  rw [UnaryOperator.toList_print]
  cases op with
  | not =>
      exact h.blank.cons fun _ hscans =>
        scans_written (.keyword (by decide)) (apart_blank _) hscans
  | minus | plus => exact hsign (by decide)

/-- Commas between the items, and a space behind each. -/
theorem separated {ι : Type} {shown : ι → Prop} {text : ι → List Char}
    {lexemes : ι → List Lexeme} (items : List ι)
    (h : ∀ a ∈ items, Gives (shown a) (text a) (lexemes a)) :
    Gives (∀ a ∈ items, shown a) ([',', ' '].intercalate (items.map text))
      (commaSeparatedLexemes (items.map lexemes)) := by
  induction items with
  | nil => exact nil.congr (iff_of_true trivial (List.forall_mem_nil _))
  | cons a items ih =>
      obtain ⟨ha, hitems⟩ := List.forall_mem_cons.mp h
      cases items with
      | nil =>
          have hone : [',', ' '].intercalate ([a].map text) = text a := by simp
          rw [hone]
          exact ha.congr List.forall_mem_singleton.symm
      | cons b items =>
          have hrest := ((ih hitems).blank.punctuation (c := ',') rfl (by decide))
          have hboth := ha.append hrest fun _ => apart_of_mem (by decide) _
          rw [List.map_cons, List.map_cons, List.intercalate_cons_cons, List.append_assoc]
          exact hboth.congr List.forall_mem_cons.symm

theorem name {name : String} (hname : IsName name) :
    Gives True name.toList [(.identifier, name)] :=
  .written (.name hname)

theorem member {value name : String} (h : Gives shown value.toList ls) (hname : IsName name) :
    Gives shown (s!"{value}.{name}").toList (ls ++ [(.dot, "."), (.identifier, name)]) := by
  obtain ⟨c, more, hchars, hstarts, -⟩ := hname.1
  have hmember := (Gives.name hname).punctuation (c := '.') rfl (by decide)
  have hboth := h.append hmember fun _ => by
    rw [hchars]
    exact apart_point hstarts _
  rw [toList_member]
  exact hboth.congr (and_iff_left trivial)

theorem index {value position : String} (h : Gives shown value.toList ls)
    (h' : Gives shown' position.toList ls') :
    Gives (shown ∧ shown') (s!"{value}[{position}]").toList
      (ls ++ (.leftBracket, "[") :: (ls' ++ [(.rightBracket, "]")])) := by
  have hclosed := h'.append (closing (c := ']') rfl) fun _ => apart_of_mem (by decide) _
  have hinside := hclosed.punctuation (c := '[') rfl (by decide)
  have hboth := h.append hinside fun _ => apart_of_mem (by decide) _
  rw [toList_index]
  exact hboth.congr (and_congr_right' (and_iff_left trivial))

theorem named {name value : String} (hname : IsName name) (h : Gives shown value.toList ls)
    (hopens : Opens value.toList) :
    Gives shown (s!"{name}={value}").toList ((.identifier, name) :: (.equals, "=") :: ls) := by
  have hequals : Gives shown ('=' :: value.toList) ((.equals, "=") :: ls) :=
    @cons _ _ _ ['='] _ h fun _ hscans =>
      scans_punctuation (c := '=') rfl (fun _ => (hopens.append _).noSign) hscans
  obtain ⟨⟨c, more, hchars, hstarts, hcontinues⟩, hkeyword⟩ := hname
  have hnamed : Gives shown (name.toList ++ '=' :: value.toList)
      ((.identifier, name) :: (.equals, "=") :: ls) :=
    hequals.cons fun _ hscans =>
      scans_word hchars hstarts hcontinues (if_neg (by simpa using hkeyword))
        (by rintro _ ⟨⟩; decide +kernel) hscans
  rwa [toList_named]

/-- Arguments of a call, positional ones first. -/
theorem arguments {args : List Expr} {named : List (NamedArgument Expr)}
    (hargs : ∀ e ∈ args, Gives e.Shown e.print.toList e.printed)
    (hnames : ∀ a ∈ named, IsName a.name)
    (hnamed : ∀ a ∈ named, Gives a.value.Shown a.value.print.toList a.value.printed)
    (hopens : ∀ a ∈ named, Opens a.value.print.toList) :
    Gives ((∀ e ∈ args, e.Shown) ∧ ∀ a ∈ named, a.value.Shown)
      (commaSeparated (Template.printAll args ++ Template.printNamed named)).toList
      (commaSeparatedLexemes (Template.printedAll args ++ Template.printedNamed named)) := by
  have hitems := @separated (Expr ⊕ NamedArgument Expr) (Sum.elim Expr.Shown (·.value.Shown))
    (Sum.elim (·.print.toList) fun a => (s!"{a.name}={a.value.print}").toList)
    (Sum.elim Expr.printed fun a => (.identifier, a.name) :: (.equals, "=") :: a.value.printed)
    (args.map .inl ++ named.map .inr) <| by
      rw [List.forall_mem_append, List.forall_mem_map, List.forall_mem_map]
      exact ⟨hargs, fun a ha => (hnamed a ha).named (hnames a ha) (hopens a ha)⟩
  rw [commaSeparated, String.toList_intercalate, Template.printAll_eq_map,
    Template.printNamed_eq_map, Template.printedAll_eq_map, Template.printedNamed_eq_map]
  simp only [List.forall_mem_append, List.forall_mem_map, List.map_append, List.map_map,
    Function.comp_def, Sum.elim_inl, Sum.elim_inr] at hitems ⊢
  exact hitems

theorem call {func args : String} (h : Gives shown func.toList ls)
    (hargs : Gives shown' args.toList ls') :
    Gives (shown ∧ shown') (s!"{func}({args})").toList (ls ++ parenthesized ls') := by
  rw [toList_call]
  exact h.append hargs.grouped fun _ => apart_of_mem (by decide) _

theorem filter {value name : String} (h : Gives shown value.toList ls) (hname : IsName name) :
    Gives shown (s!"{value}|{name}").toList (ls ++ [(.pipe, "|"), (.identifier, name)]) := by
  have hfilter := (Gives.name hname).punctuation (c := '|') rfl (by decide)
  have hboth := h.append hfilter fun _ => apart_of_mem (by decide) _
  rw [toList_filter]
  exact hboth.congr (and_iff_left trivial)

theorem filterWith {value name args : String} (h : Gives shown value.toList ls)
    (hname : IsName name) (hargs : Gives shown' args.toList ls') :
    Gives (shown ∧ shown') (s!"{value}|{name}({args})").toList
      (ls ++ (.pipe, "|") :: (.identifier, name) :: parenthesized ls') := by
  have hboth := (h.filter hname).append hargs.grouped fun _ => apart_of_mem (by decide) _
  rw [List.append_assoc] at hboth
  rwa [toList_filterWith]

end Gives

end Scanner

/-! ## Expressions -/

namespace Literal.Writable

open Scanner

variable {value : Literal}

/-- A string is printed between quotes of either kind. -/
theorem gives (h : value.Writable) : Gives value.Shown value.print.toList [value.lexeme] := by
  have hinner := h.inner_lexeme.written
  cases h with
  | @string value hnul =>
      obtain ⟨quote, hquote, hdelimiter⟩ : ∃ quote, (quote = '"' ∨ quote = '\'') ∧
          Text.Quoted.delimiter value.toList = quote := by
        refine ⟨_, ?_, rfl⟩
        unfold Text.Quoted.delimiter
        split
        · exact .inl rfl
        · exact .inr rfl
      have htext : ∀ rest, (Literal.string value).print.toList ++ rest =
          quote :: (value.toList.flatMap (Text.Quoted.escape quote) ++ quote :: rest) := by
        simp [Literal.print, Text.quoted, Text.Quoted.encode, hdelimiter]
      constructor
      · intro hshown rest ms problem _ hscans
        have hread := scans_quoted hquote
          (fun opened place => stringBody_printed hquote hshown rest opened place []) hscans
        rw [List.reverse_nil, List.nil_append, String.ofList_toList] at hread
        rw [htext]
        exact hread
      · intro hshown rest _
        obtain ⟨problem, hfails⟩ := stringBody_fails hquote hshown
        rw [htext]
        exact ⟨[], problem, scans_badQuoted hquote fun opened place => hfails rest opened place []⟩
  | integer h => exact .written hinner
  | boolean => exact .written hinner
  | none => exact .written hinner

theorem opens (h : value.Writable) : Opens value.print.toList := by
  cases h with
  | @string value hnul =>
      refine ⟨Text.Quoted.delimiter value.toList, _, String.toList_ofList, .inr (.inr ?_)⟩
      unfold Text.Quoted.delimiter
      split <;> decide
  | @integer n h =>
      have hdigits : (Literal.integer n).print.toList = Nat.toDigits 10 n := by
        show (toString n).toList = _
        rw [Nat.toString_eq_ofList_toDigits, String.toList_ofList]
      obtain ⟨c, more, hchars⟩ :=
        List.exists_cons_of_ne_nil (List.ne_nil_of_length_pos (@Nat.length_toDigits_pos 10 n))
      have hdigit := Numeral.isDigit_of_mem_toDigits (hchars ▸ List.mem_cons_self)
      exact ⟨c, more, hdigits.trans hchars, .inr (.inl (Text.isDigit_of_decimal hdigit))⟩
  | @boolean b =>
      cases b with
      | false => exact ⟨'f', _, rfl, .inl (by decide +kernel)⟩
      | true => exact ⟨'t', _, rfl, .inl (by decide +kernel)⟩
  | none => exact ⟨'n', _, rfl, .inl (by decide +kernel)⟩

end Literal.Writable

namespace Template.Expr.Writable

open Scanner

variable {e : Expr}

theorem opens (h : e.Writable) : Opens e.print.toList := by
  induction h with
  | literal h => exact h.opens
  | var h =>
      obtain ⟨c, more, hchars, hstarts, -⟩ := h.1
      exact ⟨c, more, hchars, .inl hstarts⟩
  | binary _ _ _ _ =>
      rw [Expr.print, BinaryOperator.toList_print]
      exact ⟨'(', _, rfl, .inr (.inr (by decide))⟩
  | @unary op operand span _ _ =>
      rw [Expr.print, UnaryOperator.toList_print]
      refine Opens.append ?_ _
      cases op with
      | not => exact ⟨'n', _, rfl, .inl (by decide +kernel)⟩
      | minus => exact ⟨'-', _, rfl, .inr (.inr (by decide))⟩
      | plus => exact ⟨'+', _, rfl, .inr (.inr (by decide))⟩
  | filter _ _ _ ih _ =>
      rw [Expr.print, printFilter]
      split
      · rw [toList_filter]
        exact ih.append _
      · rw [toList_filterWith, toList_filter, List.append_assoc]
        exact ih.append _
  | index _ _ ih _ =>
      rw [Expr.print, toList_index]
      exact ih.append _
  | «attribute» _ _ ih =>
      rw [Expr.print, toList_member]
      exact ih.append _
  | call _ _ _ _ ih _ _ =>
      rw [Expr.print, toList_call]
      exact ih.append _

theorem gives (h : e.Writable) : Gives e.Shown e.print.toList e.printed := by
  induction h with
  | literal h =>
      refine h.gives.congr ?_
      rw [shown_iff]
      simp [ShownHere, children]
  | var h => exact (Gives.name h).congr (by rw [shown_iff]; simp [ShownHere, children])
  | binary _ _ ihl ihr =>
      refine (ihl.binary _ ihr).congr ?_
      rw [@shown_iff (.binary ..)]
      simp [ShownHere, children]
  | @unary op operand span h ih =>
      refine (ih.unary op h.opens).congr ?_
      rw [@shown_iff (.unary ..)]
      simp [ShownHere, children]
  | @filter name value args span hname _ _ ih ihargs =>
      cases args with
      | nil =>
          refine (ih.filter hname).congr ?_
          rw [@shown_iff (.filter ..)]
          simp [ShownHere, children]
      | cons e args =>
          have harguments := @Gives.arguments (e :: args) [] ihargs (List.forall_mem_nil _)
            (List.forall_mem_nil _) (List.forall_mem_nil _)
          rw [printNamed, printedNamed, List.append_nil, List.append_nil] at harguments
          refine (ih.filterWith hname harguments).congr ?_
          rw [@shown_iff (.filter ..)]
          simp [ShownHere, children]
  | index _ _ ih ihp =>
      refine (ih.index ihp).congr ?_
      rw [@shown_iff (.index ..)]
      simp [ShownHere, children]
  | «attribute» _ hname ih =>
      refine (ih.member hname).congr ?_
      rw [@shown_iff (.attribute ..)]
      simp [ShownHere, children]
  | @call func args named argsSpan span _ _ hnames hnamed ih ihargs ihnamed =>
      refine (ih.call (Gives.arguments ihargs hnames ihnamed fun a ha =>
        (hnamed a ha).opens)).congr ?_
      rw [@shown_iff (.call ..)]
      simp [ShownHere, children, or_imp, forall_and]

end Template.Expr.Writable

/-! ## Outputs -/

/-- A source that outputs the expression. -/
def Template.Expr.outputSource (e : Expr) : String :=
  "\x7b\x7b " ++ e.print ++ " \x7d\x7d"

/-- In an output the printed lexemes are read, if every string is printed in a way that templates
know. Else a fault ends the tokens. -/
theorem Template.Expr.Writable.tokenize_output {e : Expr} (h : e.Writable) (unit : String) :
    (e.Shown → ∃ ts, tokenize e.outputSource unit .standard = (ts, none) ∧
      ts.map Token.lexeme =
        (.exprStart, "") :: (e.printed ++ [(.exprEnd, ""), (.eof, "")])) ∧
      (¬ e.Shown → ∃ ts fault, tokenize e.outputSource unit .standard = (ts, some fault)) := by
  have hopen : ∀ {ls problem},
      Scanner.Scans .tag (e.print.toList ++ [' ', '\x7d', '\x7d']) ls problem →
      Scanner.Scans .text e.outputSource.toList ((.exprStart, "") :: ls) problem := by
    intro ls problem hscans
    have hopener : Scanner.Scans .text (TagKind.output.opener.toList ++ (Whitespace.marker none ++
        ' ' :: (e.print.toList ++ [' ', '\x7d', '\x7d']))) ((.exprStart, "") :: ls) problem :=
      Scanner.scans_opener none (by decide) (fun _ => rfl) fun _ => by
        rw [if_neg (by decide)]
        exact hscans.blank
    have hsource : e.outputSource.toList =
        ['\x7b', '\x7b'] ++ ' ' :: (e.print.toList ++ [' ', '\x7d', '\x7d']) := by
      simp [outputSource]
    rw [hsource]
    exact hopener
  constructor
  · intro hshown
    have hscans := hopen (h.gives.passes hshown (Scanner.apart_blank _)
      (Scanner.scans_closer .output none Scanner.scans_end))
    obtain ⟨ts, fault, hts, hnone, htokens⟩ := hscans.tokenize unit
    rw [Option.map_eq_none_iff.mp hnone, String.ofList_toList] at htokens
    exact ⟨ts, htokens, hts⟩
  · intro hshown
    obtain ⟨ls, problem, hscans⟩ := h.gives.breaks hshown (Scanner.apart_blank ['\x7d', '\x7d'])
    obtain ⟨ts, fault, -, hsome, htokens⟩ := (hopen hscans).tokenize unit
    obtain ⟨fault, rfl, -⟩ := Option.map_eq_some_iff.mp hsome
    rw [String.ofList_toList] at htokens
    exact ⟨ts, fault, htokens⟩

end TemplateCompiler
