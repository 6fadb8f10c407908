import TemplateCompiler.Proofs.Grammar
import TemplateCompiler.Proofs.Sites
import TemplateCompiler.Proofs.TokenOrder

/-!
# No two macro calls start at one place

A call expression starts where its callee does. If it calls a macro its callee is a name, so the
call starts at the token of that name, parenthesized or not, and the call of a call block starts at
the token of its name too. Every name token is used for one name, so among the starts of the calls
no place occurs more often than among the starts of the name tokens, which is at most once.

Starts are compared by how often each place occurs, since the calls of a node are not listed in the
order of their tokens.
-/

namespace TemplateCompiler

open Template (Expr Node walkAll)

/-! ## Tokens -/

namespace Token

theorem nameStarts_append (ts us : List Token) :
    nameStarts (ts ++ us) = nameStarts ts ++ nameStarts us := by
  simp [nameStarts]

theorem nameStarts_cons_of_name {t : Token} (h : t.kind = .identifier) (ts : List Token) :
    nameStarts (t :: ts) = t.span.start :: nameStarts ts := by
  simp [nameStarts, h]

theorem count_nameStarts_le {ts us : List Token} (h : List.Sublist ts us) (p : Position) :
    (nameStarts ts).count p ≤ (nameStarts us).count p :=
  ((h.filter _).map _).count_le p

/-- Tokens that stand among others, apart. -/
theorem count_nameStarts_append_le {ts us ws : List Token} (h : List.Sublist (ts ++ us) ws)
    (p : Position) :
    (nameStarts ts).count p + (nameStarts us).count p ≤ (nameStarts ws).count p := by
  have hle := count_nameStarts_le h p
  rwa [nameStarts_append, List.count_append] at hle

end Token

open Token

theorem Span.start_upTo {s t span : Span} (h : s.upTo t = .ok span) : span.start = s.start := by
  unfold upTo between at h
  split at h
  · cases h
  · obtain rfl := Except.ok.inj h
    rfl

section

variable (table : MacroTable) (p : Position)

/-! ## Expressions -/

namespace Template.Expr

/-- Where the macro calls in an expression start. -/
def siteStarts (e : Expr) : List Position :=
  (e.callSites table).map (·.span.start)

theorem siteStarts_eq (e : Expr) :
    e.siteStarts table = (e.macroCall? table).toList.map (·.span.start) ++
      e.children.flatMap (·.siteStarts table) := by
  rw [siteStarts, callSites_eq, List.map_append, List.map_flatMap]
  rfl

/-- Where the macro calls in an expression start, and of a name, where it would start a call. -/
def entries : Expr → List Position
  | .var _ s => [s.start]
  | e => e.siteStarts table

theorem entries_eq {e : Expr} (h : ∀ name s, e ≠ .var name s) :
    e.entries table = e.siteStarts table := by
  cases e with
  | var name s => exact absurd rfl (h name s)
  | _ => rfl

theorem count_siteStarts_le (e : Expr) :
    (e.siteStarts table).count p ≤ (e.entries table).count p := by
  cases e with
  | var name s => exact Nat.zero_le _
  | _ => exact Nat.le_refl _

theorem count_flatMap_siteStarts_le (es : List Expr) :
    (es.flatMap (·.siteStarts table)).count p ≤ (es.flatMap (·.entries table)).count p := by
  induction es with
  | nil => exact Nat.le_refl _
  | cons e es ih =>
      have he := count_siteStarts_le table p e
      simp only [List.flatMap_cons, List.count_append]
      omega

/-- A call starts where its callee does, and a name that is called calls nothing itself. -/
theorem count_callee_le {f : Expr} (args : List Expr) (named : List (NamedArgument Expr))
    (argsSpan : Span) {span : Span} (h : span.start = f.span.start) :
    (((call f args named argsSpan span).macroCall? table).toList.map (·.span.start)).count p +
      (f.siteStarts table).count p ≤ (f.entries table).count p := by
  cases f with
  | var name s =>
      have hstart : span.start = s.start := h
      have hnone : (Expr.var name s).siteStarts table = [] := rfl
      rw [hnone, List.count_nil, entries, macroCall?]
      split <;> simp [hstart]
  | _ => simp [macroCall?, entries]

/-- Except for a name, an expression has no more entries than its parts together. -/
theorem count_entries_le {e : Expr} (hvar : ∀ name s, e ≠ .var name s)
    (hcall : ∀ f args named argsSpan span, e = .call f args named argsSpan span →
      span.start = f.span.start) :
    (e.entries table).count p ≤ (e.children.flatMap (·.entries table)).count p := by
  rw [entries_eq table hvar, siteStarts_eq, List.count_append]
  have hchildren := count_flatMap_siteStarts_le table p
  cases e with
  | call f args named argsSpan span =>
      have hcallee := count_callee_le table p args named argsSpan (hcall _ _ _ _ _ rfl)
      have hargs := hchildren (args ++ named.map (·.value))
      simp only [children, List.flatMap_cons, List.count_append]
      omega
  | _ => simpa [macroCall?] using hchildren _

end Template.Expr

/-! ## Derivations -/

def Phrase.entries : Phrase → List Position
  | .expr _ e => e.entries table
  | .argument args named | .leading args named | .arguments args named =>
    args.flatMap (·.entries table) ++ (named.map (·.value)).flatMap (·.entries table)

/-- The entries of a phrase are at name tokens, each at one of its own. -/
theorem Derives.count_entries_le {ts : List Token} {x : Phrase} (h : Derives ts x) :
    (x.entries table).count p ≤ (nameStarts ts).count p := by
  have hparts := fun e => Expr.count_entries_le table p (e := e)
  induction h with
  | tighter _ ih => exact ih
  | @binary ts os us _ op left right span _ _ _ _ ihl ihr =>
      have hts := count_nameStarts_append_le (show (ts ++ us).Sublist (ts ++ os ++ us) by simp) p
      have h := hparts (.binary op left right span) (by simp) (by simp)
      simp [Phrase.entries, Expr.children] at ihl ihr h hts ⊢
      omega
  | @negation t ts e span _ _ _ ih =>
      have hts := count_nameStarts_le (List.sublist_cons_self t ts) p
      have h := hparts (.unary .not e span) (by simp) (by simp)
      simp [Phrase.entries, Expr.children] at ih h ⊢
      omega
  | @sign t ts op e span _ _ _ ih =>
      have hts := count_nameStarts_le (List.sublist_cons_self t ts) p
      have h := hparts (.unary op e span) (by simp) (by simp)
      simp [Phrase.entries, Expr.children] at ih h ⊢
      omega
  | @member ts e dot name span _ _ _ _ ih =>
      have hts := count_nameStarts_le (List.sublist_append_left ts [dot, name]) p
      have h := hparts (.attribute e name.value span) (by simp) (by simp)
      simp [Phrase.entries, Expr.children] at ih h ⊢
      omega
  | @index ts us e position opening closing span _ _ _ _ _ ihe ihp =>
      have hts := count_nameStarts_append_le
        (show (ts ++ us).Sublist (ts ++ opening :: (us ++ [closing])) by simp) p
      have h := hparts (.index e position span) (by simp) (by simp)
      simp [Phrase.entries, Expr.children] at ihe ihp h ⊢
      omega
  | @call ts us e args named opening closing argsSpan span _ _ _ _ _ _ hspan ihe iha =>
      have hts := count_nameStarts_append_le
        (show (ts ++ us).Sublist (ts ++ opening :: (us ++ [closing])) by simp) p
      have h := hparts (.call e args named argsSpan span) (by simp)
        (by rintro _ _ _ _ _ ⟨⟩; exact Span.start_upTo hspan)
      simp [Phrase.entries, Expr.children] at ihe iha h ⊢
      omega
  | @filter ts e pipe name span _ _ _ _ ih =>
      have hts := count_nameStarts_le (List.sublist_append_left ts [pipe, name]) p
      have h := hparts (.filter name.value e [] span) (by simp) (by simp)
      simp [Phrase.entries, Expr.children] at ih h ⊢
      omega
  | @filterWith ts us e args pipe name opening closing span _ _ _ _ _ _ _ ihe iha =>
      have hts := count_nameStarts_append_le
        (show (ts ++ us).Sublist (ts ++ pipe :: name :: opening :: (us ++ [closing])) by grind) p
      have h := hparts (.filter name.value e args span) (by simp) (by simp)
      simp [Phrase.entries, Expr.children] at ihe iha h ⊢
      omega
  | name ht =>
      rw [nameStarts_cons_of_name ht]
      exact Nat.le_refl _
  | string | number | constant | start => exact Nat.zero_le _
  | @paren ts opening closing e _ _ _ ih =>
      have hts := count_nameStarts_le
        (show ts.Sublist (opening :: (ts ++ [closing])) by simp) p
      exact Nat.le_trans ih hts
  | positional _ ih => simpa [Phrase.entries] using ih
  | @named ts name equals e span _ _ _ _ ih =>
      have hts := count_nameStarts_le (show ts.Sublist (name :: equals :: ts) by simp) p
      simp [Phrase.entries] at ih ⊢
      omega
  | @comma ts us args named args' named' comma _ _ _ ihl iha =>
      have hts := count_nameStarts_append_le
        (show (ts ++ us).Sublist (ts ++ us ++ [comma]) by simp) p
      simp [Phrase.entries] at ihl iha hts ⊢
      omega
  | closed _ ih => exact ih
  | @last ts us args named args' named' _ _ ihl iha =>
      have hts := count_nameStarts_append_le (List.Sublist.refl (ts ++ us)) p
      simp [Phrase.entries] at ihl iha hts ⊢
      omega

/-! ## Headers -/

theorem Spells.count_siteStarts_le {ts : List Token} {e : Expr} (h : Spells ts e) :
    (e.siteStarts table).count p ≤ (nameStarts ts).count p := by
  obtain ⟨us, hus, he⟩ := h
  have hsites := Expr.count_siteStarts_le table p e
  have hentries := he.count_entries_le table p
  have hts := count_nameStarts_le hus p
  simp only [Phrase.entries] at hentries
  omega

theorem count_siteStarts_of_option_le {ts : List Token} {o : Option Expr}
    (h : ∀ e, o = some e → Spells ts e) :
    (o.toList.flatMap (·.siteStarts table)).count p ≤ (nameStarts ts).count p := by
  cases o with
  | none => exact Nat.zero_le _
  | some e => simpa using (h e rfl).count_siteStarts_le table p

theorem SpellsParameters.count_siteStarts_le {ts : List Token} {params : List (Parameter Expr)}
    (h : SpellsParameters ts params) :
    ((params.filterMap (·.default)).flatMap (·.siteStarts table)).count p ≤
      (nameStarts ts).count p := by
  induction h with
  | none => exact Nat.zero_le _
  | @more ts us ws ps param _ _ hd hs ih =>
      have hts := count_nameStarts_append_le hs p
      have hdefault := count_siteStarts_of_option_le table p hd
      have hsingle : [param].filterMap (·.default) = param.default.toList := by
        cases h : param.default <;> simp [h]
      rw [List.filterMap_append, hsingle, List.flatMap_append, List.count_append]
      omega

/-- Where the call of a call block and those among its arguments start. -/
theorem SpellsCall.count_siteStarts_le {ts : List Token} {call : MacroCall}
    (h : SpellsCall ts call) :
    (call.span.start :: call.exprs.flatMap (·.siteStarts table)).count p ≤
      (nameStarts ts).count p := by
  obtain ⟨hname, ha, -, hspan, hs⟩ := h
  have hargs := ha.count_entries_le table p
  have hts := count_nameStarts_le ((List.Sublist.cons_cons _
    ((List.sublist_append_left _ _).trans (List.sublist_cons_self _ _))).trans hs) p
  rw [nameStarts_cons_of_name hname, List.count_cons] at hts
  rw [Phrase.entries, ← List.flatMap_append] at hargs
  have hexprs := Nat.le_trans (Expr.count_flatMap_siteStarts_le table p _) hargs
  simp only [MacroCall.exprs, Span.start_upTo hspan, List.count_cons]
  omega

/-! ## Nodes -/

/-- Where the macro calls in nodes start, at any depth. -/
def siteStarts (ns : List Node) : List Position :=
  (walkAll ns).flatMap fun n => (n.callSites table).map (·.span.start)

/-- Where the calls that a node holds itself start. -/
theorem Template.Node.ownStarts_eq (n : Node) :
    (n.callSites table).map (·.span.start) = (n.blockCall?.toList.map (·.span.start)) ++
      n.held.flatMap (·.siteStarts table) := by
  rw [callSites_eq, List.map_append, List.map_flatMap]
  rfl

theorem siteStarts_append (ns ms : List Node) :
    siteStarts table (ns ++ ms) = siteStarts table ns ++ siteStarts table ms := by
  simp [siteStarts, Template.walkAll_eq_flatMap]

theorem siteStarts_singleton (n : Node) :
    siteStarts table [n] = n.blockCall?.toList.map (·.span.start) ++
      (n.held.flatMap (·.siteStarts table) ++ siteStarts table n.children) := by
  rw [← List.append_assoc, ← n.ownStarts_eq]
  simp only [siteStarts, Template.walkAll_eq_flatMap, List.flatMap_cons, List.flatMap_nil,
    List.append_nil]
  rw [n.walk_eq, List.flatMap_cons]

/-- The conditions and bodies of arms. -/
def armStarts (arms : List (Arm Node)) : List Position :=
  (arms.filterMap (·.condition)).flatMap (·.siteStarts table) ++
    siteStarts table (arms.flatMap (·.body))

def Piece.siteStarts : Piece → List Position
  | .node n => TemplateCompiler.siteStarts table [n]
  | .nodes ns => TemplateCompiler.siteStarts table ns
  | .arms as => armStarts table as

theorem siteStarts_append_singleton (ns : List Node) (n : Node) :
    siteStarts table (ns ++ [n]) = siteStarts table ns ++ (Piece.node n).siteStarts table :=
  siteStarts_append table ns [n]

theorem armStarts_append (as : List (Arm Node)) (a : Arm Node) :
    (armStarts table (as ++ [a])).count p =
      (armStarts table as).count p + (a.condition.toList.flatMap (·.siteStarts table)).count p +
        (siteStarts table a.body).count p := by
  have hsingle : [a].filterMap (·.condition) = a.condition.toList := by
    cases h : a.condition <;> simp [h]
  simp only [armStarts, List.filterMap_append, hsingle, List.flatMap_append, List.count_append,
    siteStarts_append, List.flatMap_cons, List.flatMap_nil, List.append_nil]
  omega

/-- The macro calls in a piece start at name tokens, each at one of its own. -/
theorem Composes.count_siteStarts_le {ts : List Token} {x : Piece} (h : Composes ts x) :
    (x.siteStarts table).count p ≤ (nameStarts ts).count p := by
  have hown : ∀ n : Node, (Piece.node n).siteStarts table =
      n.blockCall?.toList.map (·.span.start) ++
        (n.held.flatMap (·.siteStarts table) ++ siteStarts table n.children) :=
    siteStarts_singleton table
  induction h with
  | output he | assignment he =>
      have h := he.count_siteStarts_le table p
      rw [hown]
      simpa [Node.blockCall?, Node.held, Node.exprs, Node.children, siteStarts, walkAll] using h
  | branch _ ih =>
      rw [hown]
      exact ih
  | @loop ts us vs ws targets e body otherwise span he _ _ hs ihb iho =>
      have h := he.count_siteStarts_le table p
      have hts := count_nameStarts_append_le hs p
      rw [nameStarts_append, List.count_append] at hts
      rw [hown]
      simp [Node.blockCall?, Node.held, Node.exprs, Node.children, siteStarts_append,
        Piece.siteStarts] at ihb iho ⊢
      omega
  | @definition ts us ws name params body span hp _ hs ih =>
      have h := hp.parameters.count_siteStarts_le table p
      have hts := count_nameStarts_append_le hs p
      rw [hown]
      simp only [Node.blockCall?, Node.held, Node.exprs, Node.children, Piece.siteStarts,
        Option.toList_none, List.map_nil, List.nil_append, List.count_append] at ih ⊢
      omega
  | @callBlock ts us ws call body span hc _ hs ih =>
      have h := hc.count_siteStarts_le table p
      have hts := count_nameStarts_append_le hs p
      rw [hown]
      simp only [Node.blockCall?, Node.held, Node.children, Piece.siteStarts, Option.toList_some,
        List.map_cons, List.map_nil, List.cons_append, List.nil_append, List.count_cons,
        List.count_append] at h ih ⊢
      omega
  | inclusion | empty | noArms => exact Nat.zero_le _
  | @text ts ws ns t value _ _ hs ih =>
      have hts := count_nameStarts_append_le hs p
      have hnone : (Piece.node (.text value t.span)).siteStarts table = [] := rfl
      simp only [Piece.siteStarts] at ih
      rw [Piece.siteStarts, siteStarts_append_singleton, hnone, List.append_nil]
      omega
  | @append ts us ws ns n _ _ hs ihns ihn =>
      have hts := count_nameStarts_append_le hs p
      simp only [Piece.siteStarts] at ihns
      rw [Piece.siteStarts, siteStarts_append_singleton, List.count_append]
      omega
  | @arm ts us vs ws as condition body span _ hc _ hs iha ihb =>
      have hcondition := count_siteStarts_of_option_le table p hc
      have hts := count_nameStarts_append_le hs p
      rw [nameStarts_append, List.count_append] at hts
      simp only [Piece.siteStarts, armStarts_append] at iha ihb ⊢
      omega

end

/-! ## Templates -/

/-- No two macro calls of a template start at one place. -/
theorem Composes.starts_nodup {ts : List Token} {t : Template} (h : Composes ts (.nodes t.body))
    (hts : Token.InOrder ts) (table : MacroTable) :
    ((t.callSites table).map (·.span.start)).Nodup := by
  refine List.nodup_iff_count_le_one.mpr fun p => ?_
  have hsites := h.count_siteStarts_le table p
  have hnames := List.nodup_iff_count_le_one.mp hts.nameStarts_nodup p
  have heq : (t.callSites table).map (·.span.start) = siteStarts table t.body := List.map_flatMap
  rw [heq]
  exact Nat.le_trans hsites hnames

end TemplateCompiler
