import TemplateCompiler.Proofs.Places
import TemplateCompiler.Proofs.StatementSound
import TemplateCompiler.Proofs.Tables
import TemplateCompiler.Proofs.TokenValues

/-!
# What is read can be written

An expression that is read from a source is made of names that are names and of strings without a
NUL, since the scanner makes sure of that, and its integers are no longer than a source may have
them. So it can be written, if no real number is in it: those have no notation of their own.
-/

namespace TemplateCompiler

open Template (Expr Node)

/-! ## Integers -/

namespace Numeral

theorem isDigit_of_joinGroups? {text digits : List Char} {afterDigit : Bool}
    (h : joinGroups? afterDigit text = some digits)
    (htext : ∀ c ∈ text, isDigit c = true ∨ c = '_') : ∀ c ∈ digits, isDigit c = true := by
  fun_induction joinGroups? afterDigit text generalizing digits with
  | case1 =>
      cases h
      exact List.forall_mem_nil _
  | case2 afterDigit c rest hc ih =>
      obtain ⟨ds, hds, rfl⟩ := Option.map_eq_some_iff.mp h
      rw [Bool.and_eq_true] at hc
      refine List.forall_mem_cons.mpr ⟨hc.2, ih hds fun d hd => htext d ?_⟩
      exact List.mem_cons_of_mem _ (List.mem_cons_of_mem _ hd)
  | case3 => cases h
  | case4 => cases h
  | case5 afterDigit c rest hline hone ih =>
      obtain ⟨ds, hds, rfl⟩ := Option.map_eq_some_iff.mp h
      refine List.forall_mem_cons.mpr ⟨?_, ih hds fun d hd => htext d (List.mem_cons_of_mem _ hd)⟩
      refine (htext c List.mem_cons_self).resolve_right ?_
      rintro rfl
      cases rest with
      | nil => exact hone rfl rfl
      | cons d rest => exact hline d rest rfl rfl

/-- The value of digits has no more digits than they are. -/
theorem length_toDigits_digitsValue_le {digits : List Char} (hne : digits ≠ [])
    (h : ∀ c ∈ digits, isDigit c = true) :
    (Nat.toDigits 10 (digitsValue digits)).length ≤ digits.length := by
  have hfold : ∀ (digits : List Char) (n : Nat), (∀ c ∈ digits, isDigit c = true) →
      digits.foldl (fun n c => 10 * n + (c.toNat - '0'.toNat)) n <
        (n + 1) * 10 ^ digits.length := by
    intro digits
    induction digits with
    | nil => exact fun n _ => by simp
    | cons c digits ih =>
        intro n h
        obtain ⟨hc, hdigits⟩ := List.forall_mem_cons.mp h
        have hten : c.toNat - '0'.toNat < 10 := by
          have hall : ("0123456789".toList.all fun c => c.toNat - '0'.toNat < 10) = true := by
            decide
          exact of_decide_eq_true (List.all_eq_true.mp hall c (mem_digits_of_isDigit hc))
        have hstep : 10 * n + (c.toNat - '0'.toNat) + 1 ≤ (n + 1) * 10 := by omega
        refine Nat.lt_of_lt_of_le (ih _ hdigits) ?_
        rw [List.length_cons, Nat.pow_succ', ← Nat.mul_assoc]
        exact Nat.mul_le_mul_right _ hstep
  have hvalue := hfold digits 0 h
  rw [Nat.zero_add, Nat.one_mul] at hvalue
  exact (Nat.length_toDigits_le_iff (by decide) (List.length_pos_iff.mpr hne)).mpr hvalue

/-- No sign stands in front of the digits of a source, of whatever script. -/
theorem splitSign_of_digits {text : List Char} (h : ∀ c ∈ text, Text.isDigit c = true) :
    splitSign (normalized text) = (false, normalized text) := by
  have hsigns : (['-', '+'].all fun c => !Text.isDigit c && !isDigit c) = true := by
    decide +kernel
  refine splitSign_eq fun c hc hmem => ?_
  have hnot := List.all_eq_true.mp hsigns c hmem
  rw [Bool.and_eq_true, Bool.not_eq_true', Bool.not_eq_true'] at hnot
  obtain ⟨d, hd, rfl⟩ := List.mem_map.mp hc
  have hdigit : Text.isDigit d = true := h d <|
    (List.dropWhile_suffix _).subset (List.mem_reverse.mp
      ((List.dropWhile_suffix _).subset (List.mem_reverse.mp hd)))
  cases hvalue : Text.decimalValue? d with
  | some v => rw [(decimal_of_value hvalue).2] at hnot; cases hnot.2
  | none =>
      have hsame : asciiDigit d = d := by rw [asciiDigit, hvalue]
      rw [hsame, hdigit] at hnot
      cases hnot.1

/-- An integer of a source has no sign, and no more digits than a source may give it. -/
theorem readInteger_of_digits {text : String} {z : Int}
    (htext : ∀ c ∈ text.toList, Text.isDigit c = true) (h : readInteger text = .ok z) :
    ∃ n : Nat, z = n ∧ (toString n).length ≤ digitLimit := by
  unfold readInteger at h
  rw [splitSign_of_digits htext] at h
  dsimp only at h
  split at h
  · cases h
  · next digits hdigits =>
      split at h
      · cases h
      · next hlimit =>
          split at h
          · cases h
          · next hne =>
              rw [if_neg (by decide)] at h
              refine ⟨digitsValue digits, (Except.ok.inj h).symm, ?_⟩
              rw [Bool.or_eq_true, not_or, List.isEmpty_iff] at hne
              have hall := isDigit_of_joinGroups? hdigits fun c hc => by
                simpa using List.all_eq_true.mp List.all_takeWhile c hc
              rw [Nat.toString_eq_ofList_toDigits, String.length_ofList]
              exact Nat.le_trans (length_toDigits_digitsValue_le hne.1 hall)
                (Nat.le_of_not_lt hlimit)

end Numeral

/-- The number that a token stands for. -/
theorem DigitText.writable {text : String} {value : Literal} (h : DigitText text.toList)
    (hv : Parser.readNumber text = .ok value) : value.Writable ∨ ∃ x, value = .real x := by
  unfold Parser.readNumber at hv
  split at hv
  · cases hx : Numeral.readReal text with
    | error e => rw [hx] at hv; cases hv
    | ok x => rw [hx] at hv; cases hv; exact .inr ⟨x, rfl⟩
  · next hpoint =>
      cases hz : Numeral.readInteger text with
      | error e => rw [hz] at hv; cases hv
      | ok z =>
          rw [hz] at hv
          cases hv
          have hdigits : ∀ c ∈ text.toList, Text.isDigit c = true := by
            generalize text.toList = cs at h hpoint
            cases h with
            | whole _ hdigits => exact hdigits
            | pointed _ _ _ => simp at hpoint
          obtain ⟨n, rfl, hlength⟩ := Numeral.readInteger_of_digits hdigits hz
          exact .inl (.integer hlength)

/-! ## Expressions -/

def Template.Expr.IsReal : Expr → Bool
  | .literal (.real _) _ => true
  | _ => false

/-- No real number is in the expression. -/
def Template.Expr.NoReals (e : Expr) : Prop :=
  e.Throughout fun x => x.IsReal = false

instance (e : Expr) : Decidable e.NoReals :=
  inferInstanceAs (Decidable (e.Throughout _))

/-- What is made of tokens whose values hold what they should. -/
def Phrase.Writable : Phrase → Prop
  | .expr _ e => e.NoReals → e.Writable
  | .argument args named | .leading args named | .arguments args named =>
    (∀ e ∈ args, e.NoReals → e.Writable) ∧
      ∀ a ∈ named, IsName a.name ∧ (a.value.NoReals → a.value.Writable)

theorem Template.Expr.NoReals.of_child {e x : Expr} (h : e.NoReals) (hx : x ∈ e.children) :
    x.NoReals :=
  (throughout_iff.mp h).2 x hx

theorem Derives.writable {ts : List Token} {x : Phrase} (h : Derives ts x)
    (hts : ∀ t ∈ ts, t.Sound) : x.Writable := by
  induction h with
  | tighter _ ih => exact ih hts
  | binary _ _ _ _ ihl ihr =>
      intro hreals
      exact .binary (ihl (by grind) (hreals.of_child (by simp [Expr.children])))
        (ihr (by grind) (hreals.of_child (by simp [Expr.children])))
  | negation _ _ _ ih | sign _ _ _ ih =>
      exact fun hreals => .unary (ih (by grind) (hreals.of_child (by simp [Expr.children])))
  | member _ _ hname _ ih =>
      exact fun hreals => .attribute (ih (by grind) (hreals.of_child (by simp [Expr.children])))
        ((hts _ (by simp)).name hname)
  | index _ _ _ _ _ ih ihp =>
      intro hreals
      exact .index (ih (by grind) (hreals.of_child (by simp [Expr.children])))
        (ihp (by grind) (hreals.of_child (by simp [Expr.children])))
  | call _ _ _ _ _ _ _ ih iha =>
      intro hreals
      obtain ⟨hargs, hnamed⟩ := iha (by grind)
      exact .call (ih (by grind) (hreals.of_child (by simp [Expr.children])))
        (fun e he => hargs e he (hreals.of_child (by simp [Expr.children, he])))
        (fun a ha => (hnamed a ha).1) fun a ha => (hnamed a ha).2
          (hreals.of_child (by simp only [Expr.children]; grind))
  | filter _ _ hname _ ih =>
      exact fun hreals => .filter ((hts _ (by simp)).name hname)
        (ih (by grind) (hreals.of_child (by simp [Expr.children]))) (List.forall_mem_nil _)
  | filterWith _ _ hname _ _ _ _ ih iha =>
      intro hreals
      obtain ⟨hargs, -⟩ := iha (by grind)
      exact .filter ((hts _ (by simp)).name hname)
        (ih (by grind) (hreals.of_child (by simp [Expr.children])))
        fun e he => hargs e he (hreals.of_child (by simp [Expr.children, he]))
  | name ht => exact fun _ => .var ((hts _ (by simp)).name ht)
  | string ht => exact fun _ => .literal (.string ((hts _ (by simp)).string ht))
  | number ht hv =>
      intro hreals
      rcases ((hts _ (by simp)).number ht).writable hv with hvalue | ⟨x, rfl⟩
      · exact .literal hvalue
      · cases (Expr.throughout_iff.mp hreals).1
  | @constant t value hv =>
      intro _
      unfold Parser.constant? at hv
      split at hv
      · have hall : ∀ c ∈ constants, c.2.Writable := by
          simp only [constants, List.forall_mem_cons]
          exact ⟨.boolean, .boolean, .boolean, .boolean, .none, .none, List.forall_mem_nil _⟩
        exact .literal (hall _ (mem_of_lookup hv))
      · cases hv
  | paren _ _ _ ih => exact ih (by grind)
  | positional _ ih =>
      exact ⟨List.forall_mem_singleton.mpr (ih hts), List.forall_mem_nil _⟩
  | named hname _ _ _ ih =>
      refine ⟨List.forall_mem_nil _, List.forall_mem_singleton.mpr ⟨?_, ih (by grind)⟩⟩
      exact (hts _ (by simp)).name hname
  | start => exact ⟨List.forall_mem_nil _, List.forall_mem_nil _⟩
  | comma _ _ _ ihl iha | last _ _ ihl iha =>
      obtain ⟨hargs, hnamed⟩ := ihl (by grind)
      obtain ⟨hargs', hnamed'⟩ := iha (by grind)
      exact ⟨List.forall_mem_append.mpr ⟨hargs, hargs'⟩,
        List.forall_mem_append.mpr ⟨hnamed, hnamed'⟩⟩
  | closed _ ih => exact ih hts

/-! ## Expressions of nodes -/

theorem Composes.arm_condition {ts : List Token} {arms : List (Arm Node)}
    (h : Composes ts (.arms arms)) {a : Arm Node} (ha : a ∈ arms) {e : Expr}
    (he : a.condition = some e) : Spells ts e := by
  generalize hx : Piece.arms arms = x at h
  induction h generalizing arms with
  | noArms =>
      obtain rfl := Piece.arms.inj hx
      cases ha
  | arm _ hc _ hs iha _ =>
      obtain rfl := Piece.arms.inj hx
      rcases List.mem_append.mp ha with ha | ha
      · exact (iha ha rfl).mono (sublist_of_left (sublist_of_left hs))
      · obtain rfl := List.mem_singleton.mp ha
        exact (hc e he).mono (sublist_of_middle hs)
  | _ => cases hx

theorem SpellsParameters.default {ts : List Token} {ps : List (Parameter Expr)}
    (h : SpellsParameters ts ps) {p : Parameter Expr} (hp : p ∈ ps) {e : Expr}
    (he : p.default = some e) : Spells ts e := by
  induction h with
  | none => cases hp
  | more _ _ hd hs ih =>
      rcases List.mem_append.mp hp with hp | hp
      · exact (ih hp).mono (sublist_of_left hs)
      · obtain rfl := List.mem_singleton.mp hp
        exact (hd e he).mono (sublist_of_right hs)

/-- The tokens of the expressions that a node holds are among those of the node. -/
theorem Composes.spells {ts : List Token} {n : Node} (h : Composes ts (.node n)) {e : Expr}
    (he : e ∈ n.exprs) : Spells ts e := by
  cases h with
  | output hspells | assignment hspells =>
      obtain rfl := List.mem_singleton.mp he
      exact hspells
  | branch ha =>
      obtain ⟨a, hmem, hcondition⟩ := List.mem_filterMap.mp he
      exact ha.arm_condition hmem hcondition
  | loop hspells _ _ hs =>
      obtain rfl := List.mem_singleton.mp he
      exact hspells.mono (sublist_of_left (sublist_of_left hs))
  | definition hp _ hs =>
      obtain ⟨p, hmem, hdefault⟩ := List.mem_filterMap.mp he
      exact (hp.parameters.default hmem hdefault).mono (sublist_of_left hs)
  | callBlock | inclusion => cases he

/-- Every expression that is read for a node can be written, if no real number is in it. -/
theorem parse_writable {setting : Parser.Setting} {delimiters : Delimiters} {source : String}
    {p : Parsed} (hp : parse setting delimiters source = .ok p) {n : Node}
    (hn : n ∈ Template.walkAll p.template.body) {e : Expr} (he : e ∈ n.exprs)
    (hreals : e.NoReals) : e.Writable := by
  rcases (parseTokens_composes hp).of_mem_walk hn with ⟨value, s, rfl⟩ | h
  · cases he
  · obtain ⟨us, hus, hderives⟩ := h.spells he
    exact hderives.writable (fun t ht => tokenize_sound _ _ _ t (hus.subset ht)) hreals

end TemplateCompiler
