import TemplateCompiler.Proofs.Bare

/-!
# Trees whose texts are joined

A list of nodes can hold a text directly behind another one, where a comment stood between them.
`joinedNodes` puts a single text in the place of such a row, at every depth. The text keeps the span
of the first of the row, so trees are compared bare: `SameJoined` says that two lists of nodes are
equal up to their spans and up to how their texts are cut. It goes along with every way to build a
node.
-/

namespace TemplateCompiler.Template

/-- A node in front of nodes that are joined already. -/
def attach : Node → List Node → List Node
  | .text a s, .text b _ :: ns => .text (a ++ b) s :: ns
  | n, ns => n :: ns

mutual

def Node.joined : Node → Node
  | .branch arms s => .branch (joinedArms arms) s
  | .loop targets iterable body otherwise s =>
    .loop targets iterable (joinedNodes body) (joinedNodes otherwise) s
  | .definition d => .definition { d with body := joinedNodes d.body }
  | .callBlock call body s => .callBlock call (joinedNodes body) s
  | .text value s => .text value s
  | .output e s => .output e s
  | .inclusion path s => .inclusion path s
  | .assignment name value s => .assignment name value s

def joinedNodes : List Node → List Node
  | [] => []
  | n :: ns => attach n.joined (joinedNodes ns)

def joinedArms : List (Arm Node) → List (Arm Node)
  | [] => []
  | a :: as => { a with body := joinedNodes a.body } :: joinedArms as

end

def joined (t : Template) : Template :=
  { t with body := joinedNodes t.body }

/-! ## Lists in a row -/

/-- Two texts in front of nodes can be joined with each other first. -/
theorem attach_attach (a b : String) (s s' : Span) (ns : List Node) :
    attach (.text a s) (attach (.text b s') ns) = attach (.text (a ++ b) s) ns := by
  cases ns with
  | nil => rfl
  | cons n ns =>
      cases n with
      | text c s'' =>
          show [Node.text (a ++ (b ++ c)) s] ++ ns = [Node.text (a ++ b ++ c) s] ++ ns
          rw [String.append_assoc]
      | _ => rfl

theorem attach_of_ne {n : Node} (hn : ∀ value s, n ≠ .text value s) (ns : List Node) :
    attach n ns = n :: ns := by
  unfold attach
  split
  · next value s _ _ _ => exact absurd rfl (hn value s)
  · rfl

theorem foldr_attach (n : Node) (ns ms : List Node) :
    (attach n ns).foldr attach ms = attach n (ns.foldr attach ms) := by
  unfold attach
  split
  · next a s b s' ns => exact (attach_attach a b s s' _).symm
  · rfl

theorem joinedNodes_append (ns ms : List Node) :
    joinedNodes (ns ++ ms) = (joinedNodes ns).foldr attach (joinedNodes ms) := by
  induction ns with
  | nil => rfl
  | cons n ns ih => rw [List.cons_append, joinedNodes, joinedNodes, ih, foldr_attach]

theorem joinedArms_append (as bs : List (Arm Node)) :
    joinedArms (as ++ bs) = joinedArms as ++ joinedArms bs := by
  induction as with
  | nil => rfl
  | cons a as ih => rw [List.cons_append, joinedArms, joinedArms, ih, List.cons_append]

theorem bareNodes_append (ns ms : List Node) :
    bareNodes (ns ++ ms) = bareNodes ns ++ bareNodes ms := by
  induction ns with
  | nil => rfl
  | cons n ns ih => rw [List.cons_append, bareNodes, bareNodes, ih, List.cons_append]

/-! ## Equal up to spans and cuts -/

/-- The two lists are equal but for their spans and for how their texts are cut. -/
def SameJoined (ns ms : List Node) : Prop :=
  joinedNodes (bareNodes ms) = joinedNodes (bareNodes ns)

def SameJoinedArms (as bs : List (Arm Node)) : Prop :=
  joinedArms (bareArms bs) = joinedArms (bareArms as)

namespace SameJoined

variable {ns ms ns' ms' : List Node} {s s' : Span}

theorem refl (ns : List Node) : SameJoined ns ns := rfl

theorem append (h : SameJoined ns ms) (h' : SameJoined ns' ms') :
    SameJoined (ns ++ ns') (ms ++ ms') := by
  unfold SameJoined at *
  rw [bareNodes_append, bareNodes_append, joinedNodes_append, joinedNodes_append, h, h']

/-- Nodes that are equal but for their spans. -/
theorem of_bare {n m : Node} (h : m.bare = n.bare) : SameJoined [n] [m] := by
  unfold SameJoined
  rw [bareNodes, bareNodes, h]
  rfl

theorem texts (a b : String) (s s' s'' : Span) :
    SameJoined [.text a s, .text b s'] [.text (a ++ b) s''] := rfl

theorem branch {as bs : List (Arm Node)} (h : SameJoinedArms as bs) :
    SameJoined [.branch as s] [.branch bs s'] := by
  show [Node.branch (joinedArms (bareArms bs)) _] = _
  rw [h]
  rfl

theorem loop {targets : List String} {e e' : Expr} (he : e'.bare = e.bare)
    (h : SameJoined ns ms) (h' : SameJoined ns' ms') :
    SameJoined [.loop targets e ns ns' s] [.loop targets e' ms ms' s'] := by
  show [Node.loop _ e'.bare (joinedNodes (bareNodes ms)) (joinedNodes (bareNodes ms')) _] = _
  rw [he, h, h']
  rfl

theorem definition {name : String} {params params' : List (Parameter Expr)} {t t' : Span}
    (hparams : params'.map Parameter.bare = params.map Parameter.bare) (h : SameJoined ns ms) :
    SameJoined [.definition ⟨name, params, ns, t, s⟩]
      [.definition ⟨name, params', ms, t', s'⟩] := by
  show [Node.definition ⟨_, params'.map Parameter.bare, joinedNodes (bareNodes ms), _, _⟩] = _
  rw [hparams, h]
  rfl

theorem callBlock {call call' : MacroCall} (hcall : call'.bare = call.bare)
    (h : SameJoined ns ms) : SameJoined [.callBlock call ns s] [.callBlock call' ms s'] := by
  show [Node.callBlock call'.bare (joinedNodes (bareNodes ms)) _] = _
  rw [hcall, h]
  rfl

end SameJoined

namespace SameJoinedArms

theorem nil : SameJoinedArms [] [] := rfl

theorem concat {as bs : List (Arm Node)} {a b : Arm Node} (h : SameJoinedArms as bs)
    (hcondition : b.condition.map Expr.bare = a.condition.map Expr.bare)
    (hbody : SameJoined a.body b.body) : SameJoinedArms (as ++ [a]) (bs ++ [b]) := by
  unfold SameJoinedArms at *
  rw [bareArms_append, bareArms_append, joinedArms_append, joinedArms_append, h]
  show joinedArms (bareArms as) ++ [⟨_, joinedNodes (bareNodes b.body), _⟩] = _
  rw [hbody, hcondition]
  rfl

end SameJoinedArms

end TemplateCompiler.Template
