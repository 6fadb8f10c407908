import TemplateCompiler.Proofs.BarePrograms
import TemplateCompiler.Proofs.MirroredPrograms

/-!
# Programs of alike templates

Two templates that are the same, joined and bare, become programs that are the same bare. A run of
texts is one literal however it is cut; a definition between two texts keeps the nodes apart, but
not the literals, and it does so in both templates. All else comes to the same node by node, so the
proof goes along the image of the one template (`Mirrors`), and reads that of the other against it.
-/

namespace TemplateCompiler

open Template (Node walkAll walkArms SameJoined SameJoinedArms bareNodes joinedNodes attach)
open Program (Operation bareAll)

/-! ## Runs in joined nodes -/

theorem Template.Node.textSpan?_core {n : Node} (hn : n.textSpan? = none) :
    n.bare.joined.textSpan? = none := by
  cases n with
  | text value s => cases hn
  | _ => rfl

namespace Template

variable {ns : List Node} {run run' : List (String × Span)} {rest rest' : List Node}

theorem attach_text {a : String} {s : Span} (h : ∀ n ∈ ns.head?, n.textSpan? = none) :
    attach (.text a s) ns = .text a s :: ns := by
  unfold attach
  split
  · next heq _ => cases h _ rfl
  · rfl

theorem joinedNodes_cons {n : Node} (hn : n.textSpan? = none) (ns : List Node) :
    joinedNodes (bareNodes (n :: ns)) = n.bare.joined :: joinedNodes (bareNodes ns) := by
  rw [bareNodes, joinedNodes, attach_of_ne]
  intro value s heq
  have hnone := n.textSpan?_core hn
  rw [heq] at hnone
  cases hnone

theorem head_joinedNodes (h : ∀ n ∈ ns.head?, n.textSpan? = none) :
    ∀ n ∈ (joinedNodes (bareNodes ns)).head?, n.textSpan? = none := by
  cases ns with
  | nil => simp [bareNodes, joinedNodes]
  | cons n ns =>
      rw [joinedNodes_cons (h n rfl)]
      rintro _ ⟨⟩
      exact n.textSpan?_core (h n rfl)

/-- Nodes begin with a run of texts, which may be empty. -/
theorem exists_run (ns : List Node) : ∃ (run : List (String × Span)) (rest : List Node),
    ns = run.map (fun part => .text part.1 part.2) ++ rest ∧
      ∀ n ∈ rest.head?, n.textSpan? = none := by
  induction ns with
  | nil => exact ⟨[], [], rfl, by simp⟩
  | cons n ns ih =>
      cases htext : n.textSpan? with
      | none => exact ⟨[], n :: ns, rfl, by simpa using htext⟩
      | some s =>
          obtain ⟨value, rfl⟩ := n.eq_text_of_textSpan? htext
          obtain ⟨run, rest, rfl, hrest⟩ := ih
          exact ⟨(value, s) :: run, rest, rfl, hrest⟩

/-- A run is joined to one text. -/
theorem joinedNodes_run (hrun : run ≠ []) (hrest : ∀ n ∈ rest.head?, n.textSpan? = none) :
    joinedNodes (bareNodes (run.map (fun part => .text part.1 part.2) ++ rest)) =
      .text (String.join (run.map (·.1))) .blank :: joinedNodes (bareNodes rest) := by
  induction run with
  | nil => exact absurd rfl hrun
  | cons part run ih =>
      rw [List.map_cons, List.cons_append, bareNodes, joinedNodes, List.map_cons, String.join_cons]
      cases run with
      | nil =>
          rw [List.map_nil, List.nil_append, List.map_nil, Node.bare, Node.joined,
            attach_text (head_joinedNodes hrest)]
          simp
      | cons next run =>
          rw [ih (List.cons_ne_nil _ _)]
          rfl

/-- The runs at the beginning hold the same text, and what follows them is the same. -/
theorem SameJoined.run_inv (hrest : ∀ n ∈ rest.head?, n.textSpan? = none)
    (hrest' : ∀ n ∈ rest'.head?, n.textSpan? = none)
    (h : SameJoined (run.map (fun part => .text part.1 part.2) ++ rest)
      (run'.map (fun part => .text part.1 part.2) ++ rest')) :
    (run' = [] ↔ run = []) ∧ String.join (run'.map (·.1)) = String.join (run.map (·.1)) ∧
      SameJoined rest rest' := by
  unfold SameJoined at h
  by_cases hrun : run = []
  · subst hrun
    by_cases hrun' : run' = []
    · subst hrun'
      exact ⟨.rfl, rfl, h⟩
    · rw [joinedNodes_run hrun' hrest', List.map_nil, List.nil_append] at h
      cases head_joinedNodes hrest _ (by rw [← h]; rfl)
  · rw [joinedNodes_run hrun hrest] at h
    by_cases hrun' : run' = []
    · subst hrun'
      rw [List.map_nil, List.nil_append] at h
      cases head_joinedNodes hrest' _ (by rw [h]; rfl)
    · rw [joinedNodes_run hrun' hrest'] at h
      obtain ⟨hhead, htail⟩ := List.cons.inj h
      exact ⟨iff_of_false hrun' hrun, (Node.text.inj hhead).1, htail⟩

theorem SameJoined.cons_inv {n : Node} {ns ns' : List Node} (hn : n.textSpan? = none)
    (h : SameJoined (n :: ns) ns') : ∃ n' rest, ns' = n' :: rest ∧ n'.textSpan? = none ∧
      n'.bare.joined = n.bare.joined ∧ SameJoined ns rest := by
  obtain ⟨run, rest, rfl, hrest⟩ := exists_run ns'
  obtain ⟨hrun, -, hrest'⟩ := @SameJoined.run_inv [] run (n :: ns) rest (by simpa using hn) hrest h
  obtain rfl := hrun.mpr rfl
  unfold SameJoined at hrest'
  cases rest with
  | nil => rw [joinedNodes_cons hn] at hrest'; cases hrest'
  | cons n' rest =>
      have hn' := hrest n' rfl
      rw [joinedNodes_cons hn, joinedNodes_cons hn'] at hrest'
      obtain ⟨hhead, htail⟩ := List.cons.inj hrest'
      exact ⟨n', rest, rfl, hn', hhead, htail⟩

theorem SameJoined.nil_inv {ns : List Node} (h : SameJoined [] ns) : ns = [] := by
  obtain ⟨run, rest, rfl, hrest⟩ := exists_run ns
  obtain ⟨hrun, -, hrest'⟩ := @SameJoined.run_inv [] run [] rest (by simp) hrest h
  obtain rfl := hrun.mpr rfl
  cases rest with
  | nil => rfl
  | cons n rest =>
      unfold SameJoined at hrest'
      rw [joinedNodes_cons (hrest n rfl)] at hrest'
      cases hrest'

/-! ## Definitions left out -/

theorem filter_attach {n : Node} (hn : n.definition?.isNone) (ns ms : List Node) :
    ((attach n ns).filter (·.definition?.isNone)).foldr attach ms =
      attach n ((ns.filter (·.definition?.isNone)).foldr attach ms) := by
  unfold attach
  split
  · next a s b s' ns => exact (attach_attach a b s s' _).symm
  · rw [List.filter_cons, if_pos hn]
    rfl

/-- What definitions kept apart is joined once they are left out. -/
theorem joinedNodes_filter (ns : List Node) :
    joinedNodes (bareNodes (ns.filter (·.definition?.isNone))) =
      ((joinedNodes (bareNodes ns)).filter (·.definition?.isNone)).foldr attach [] := by
  induction ns with
  | nil => rfl
  | cons n ns ih =>
      have hcore : n.bare.joined.definition?.isNone = n.definition?.isNone := by cases n <;> rfl
      rw [bareNodes, joinedNodes]
      by_cases hn : n.definition?.isNone
      · rw [List.filter_cons, if_pos hn, bareNodes, joinedNodes, ih, filter_attach (hcore ▸ hn)]
      · rw [List.filter_cons, if_neg hn, ih, attach_of_ne, List.filter_cons, if_neg (hcore ▸ hn)]
        rintro value s heq
        rw [← hcore, heq] at hn
        exact hn rfl

theorem SameJoined.filter {ns ns' : List Node} (h : SameJoined ns ns') :
    SameJoined (ns.filter (·.definition?.isNone)) (ns'.filter (·.definition?.isNone)) := by
  unfold SameJoined at *
  rw [joinedNodes_filter, joinedNodes_filter, h]

end Template

/-! ## Images -/

theorem Program.bareAll_append (ops ops' : List Operation) :
    bareAll (ops ++ ops') = bareAll ops ++ bareAll ops' := by
  induction ops with
  | nil => rfl
  | cons op ops ih => rw [List.cons_append, bareAll, bareAll, ih, List.cons_append]

theorem Program.bareMacros_eq_map (ms : List (MacroProgram Operation)) :
    Program.bareMacros ms = ms.map MacroProgram.bare := by
  induction ms with
  | nil => rfl
  | cons m ms ih => rw [Program.bareMacros, ih, List.map_cons, MacroProgram.bare]

namespace Generator

/-- What a run becomes depends on its text alone. -/
theorem bareAll_flush {run run' : List (String × Span)}
    (h : String.join (run'.map (·.1)) = String.join (run.map (·.1))) :
    bareAll (flush (joinedText? run')) = bareAll (flush (joinedText? run)) := by
  have hflush : ∀ run : List (String × Span), bareAll (flush (joinedText? run)) =
      if String.join (run.map (·.1)) = "" then [] else
        [.literal (String.join (run.map (·.1))) .blank] := by
    intro run
    cases hrun : joinedText? run with
    | none => rw [if_pos (join_of_joinedText?_none hrun).2]; rfl
    | some part =>
        have hwritten := joinedText?_ne_empty part hrun
        unfold joinedText? at hrun
        split at hrun
        · cases hrun
        · obtain rfl := Option.some.inj hrun
          rw [if_neg hwritten]
          rfl
  rw [hflush, hflush, h]

/-- The bindings hold what the calls in nodes bind to. -/
def OwnsIn (g : Generator) (ns : List Node) : Prop :=
  ∀ n ∈ ns, ∀ c ∈ n.callSites g.table, g.HoldsOwn c

variable {g g' : Generator}

theorem OwnsIn.mono {ns ms : List Node} (h : g.OwnsIn ns) (hsub : ms ⊆ ns) : g.OwnsIn ms :=
  fun n hn => h n (hsub hn)

theorem OwnsIn.held {ns : List Node} {n : Node} (h : g.OwnsIn ns) (hn : n ∈ ns)
    {e : Template.Expr} (he : e ∈ n.held) : g.Owns e :=
  fun c hc => h n hn c (Node.mem_callSites_of_held he hc)

/-- The bindings hold what the calls in arms and in their conditions bind to. -/
structure OwnsArms (g : Generator) (arms : List (Arm Node)) : Prop where
  bodies : g.OwnsIn (walkArms arms)
  conditions : ∀ a ∈ arms, ∀ e ∈ a.condition, g.Owns e

theorem OwnsIn.arms {arms : List (Arm Node)} {s : Span}
    (h : g.OwnsIn (Node.branch arms s).walk) : g.OwnsArms arms where
  bodies := h.mono (List.subset_cons_self _ _)
  conditions a ha _ he := h.held List.mem_cons_self (List.mem_filterMap.mpr ⟨a, ha, he⟩)

theorem OwnsArms.tail {a : Arm Node} {arms : List (Arm Node)} (h : g.OwnsArms (a :: arms)) :
    g.OwnsArms arms where
  bodies := h.bodies.mono (List.subset_append_right _ _)
  conditions b hb := h.conditions b (List.mem_cons_of_mem _ hb)

theorem walkAll_filter_subset (ns : List Node) :
    walkAll (ns.filter (·.definition?.isNone)) ⊆ walkAll ns := by
  intro x hx
  rw [Template.walkAll_eq_flatMap] at hx ⊢
  obtain ⟨n, hn, hx⟩ := List.mem_flatMap.mp hx
  exact List.mem_flatMap.mpr ⟨n, List.mem_of_mem_filter hn, hx⟩

/-- What a part that is the same, joined and bare, comes to is the same bare. -/
def AlikeImage (g g' : Generator) : Image → Prop
  | .node n op => ∀ n' op', n'.bare.joined = n.bare.joined → g.OwnsIn n.walk →
      g'.OwnsIn n'.walk → g'.Mirrors (.node n' op') → op'.bare = op.bare
  | .nodes ns ops => ∀ ns' ops', SameJoined ns ns' → g.OwnsIn (walkAll ns) →
      g'.OwnsIn (walkAll ns') → g'.Mirrors (.nodes ns' ops') → bareAll ops' = bareAll ops
  | .block ns ops => ∀ ns' ops', SameJoined ns ns' → g.OwnsIn (walkAll ns) →
      g'.OwnsIn (walkAll ns') → g'.Mirrors (.block ns' ops') → bareAll ops' = bareAll ops
  | .arms arms images => ∀ arms' images', SameJoinedArms arms arms' → g.OwnsArms arms →
      g'.OwnsArms arms' → g'.Mirrors (.arms arms' images') →
        Program.bareArms images' = Program.bareArms images

/-! ### One rule for each kind of node -/

namespace AlikeImage

section

variable {e : Template.Expr} {x : Program.Expr} {call : MacroCall} {bound : BoundCall Program.Expr}
  {n : Node} {op : Operation} {ns body otherwise : List Node} {ops others : List Operation}
  {arms : List (Arm Node)} {images : List (Program.Arm Operation)} {s : Span}

theorem invoke (halike : Alike g g') (hc : e.macroCall? g.table = some call)
    (hb : g.macroCall call = .ok bound) :
    g.AlikeImage g' (.node (.output e s) (.invoke bound none s)) := by
  intro n' op' hn' hown hown' h'
  cases n' with
  | output e' s' =>
      have hcalls := halike.macroCall? (Node.output.inj hn').1
      obtain ⟨hcall, hexprs⟩ := (hown.held List.mem_cons_self List.mem_cons_self).call hc
      rw [hc] at hcalls
      cases h' with
      | invoke hc' hb' =>
          obtain ⟨hcall', hexprs'⟩ := (hown'.held List.mem_cons_self List.mem_cons_self).call hc'
          rw [hc'] at hcalls
          have hbound := halike.macroCall (Option.some.inj hcalls) hcall hcall' hexprs hexprs'
          rw [hb, hb'] at hbound
          exact congrArg (Operation.invoke · none _) (Except.ok.inj hbound)
      | emit hc' _ => rw [hc'] at hcalls; cases hcalls
  | _ => cases hn'

theorem emit (halike : Alike g g') (hc : e.macroCall? g.table = none) (he : g.expr e = .ok x) :
    g.AlikeImage g' (.node (.output e s) (.emit x g.escaper s)) := by
  intro n' op' hn' hown hown' h'
  cases n' with
  | output e' s' =>
      have hbare : e'.bare = e.bare := (Node.output.inj hn').1
      have hcalls := halike.macroCall? hbare
      rw [hc] at hcalls
      cases h' with
      | invoke hc' _ => rw [hc'] at hcalls; cases hcalls
      | @emit _ x' _ _ he' =>
          have hexpr := halike.expr e hbare (hown.held List.mem_cons_self List.mem_cons_self)
            (hown'.held List.mem_cons_self List.mem_cons_self)
          rw [he, he'] at hexpr
          show Operation.emit x'.bare g'.escaper _ = _
          rw [Except.ok.inj hexpr, halike.escaper]
          rfl
  | _ => cases hn'

theorem store {name : String} (halike : Alike g g') (he : g.expr e = .ok x) :
    g.AlikeImage g' (.node (.assignment name e s) (.store name x s)) := by
  intro n' op' hn' hown hown' h'
  cases n' with
  | assignment name' e' s' =>
      obtain ⟨rfl, hbare, -⟩ := Node.assignment.inj hn'
      cases h' with
      | store he' =>
          have hexpr := halike.expr e hbare (hown.held List.mem_cons_self List.mem_cons_self)
            (hown'.held List.mem_cons_self List.mem_cons_self)
          rw [he, he'] at hexpr
          exact congrArg (Operation.store _ · _) (Except.ok.inj hexpr)
  | _ => cases hn'

theorem branch (h : g.AlikeImage g' (.arms arms images)) :
    g.AlikeImage g' (.node (.branch arms s) (.branch images s)) := by
  intro n' op' hn' hown hown' h'
  cases n' with
  | branch arms' s' =>
      cases h' with
      | branch ha' =>
          have harms := h _ _ (Node.branch.inj hn').1 hown.arms hown'.arms ha'
          exact congrArg (Operation.branch · _) harms
  | _ => cases hn'

theorem loop {targets : List String} (halike : Alike g g') (he : g.expr e = .ok x)
    (hb : g.AlikeImage g' (.block body ops)) (ho : g.AlikeImage g' (.block otherwise others)) :
    g.AlikeImage g' (.node (.loop targets e body otherwise s) (.loop targets x ops others s)) := by
  intro n' op' hn' hown hown' h'
  cases n' with
  | loop targets' e' body' otherwise' s' =>
      obtain ⟨rfl, hbare, hbody, hother, -⟩ := Node.loop.inj hn'
      cases h' with
      | @loop _ _ x' _ ops' _ others' _ he' hb' ho' =>
          have hexpr := halike.expr e hbare (hown.held List.mem_cons_self List.mem_cons_self)
            (hown'.held List.mem_cons_self List.mem_cons_self)
          rw [he, he'] at hexpr
          have hown := hown.mono (List.subset_cons_self _ _)
          have hown' := hown'.mono (List.subset_cons_self _ _)
          have hops := hb _ _ hbody (hown.mono (List.subset_append_left _ _))
            (hown'.mono (List.subset_append_left _ _)) hb'
          have hothers := ho _ _ hother (hown.mono (List.subset_append_right _ _))
            (hown'.mono (List.subset_append_right _ _)) ho'
          show Operation.loop _ x'.bare (bareAll ops') (bareAll others') _ = _
          rw [Except.ok.inj hexpr, hops, hothers]
          rfl
  | _ => cases hn'

theorem callBlock (halike : Alike g g') (hc : g.macroCall call = .ok bound)
    (hb : g.AlikeImage g' (.block body ops)) :
    g.AlikeImage g' (.node (.callBlock call body s) (.invoke bound (some ops) s)) := by
  intro n' op' hn' hown hown' h'
  cases n' with
  | callBlock call' body' s' =>
      obtain ⟨hbare, hbody, -⟩ := Node.callBlock.inj hn'
      cases h' with
      | @callBlock _ bound' _ ops' _ hc' hb' =>
          have hbound := halike.macroCall hbare
            (hown _ List.mem_cons_self call List.mem_cons_self)
            (hown' _ List.mem_cons_self call' List.mem_cons_self)
            (fun e he => hown.held List.mem_cons_self he)
            (fun e he => hown'.held List.mem_cons_self he)
          rw [hc, hc'] at hbound
          have hops := hb _ _ hbody (hown.mono (List.subset_cons_self _ _))
            (hown'.mono (List.subset_cons_self _ _)) hb'
          show Operation.invoke (Program.bareInvocation bound') (some (bareAll ops')) _ = _
          rw [Except.ok.inj hbound, hops]
          rfl
  | _ => cases hn'

/-! ### Lists -/

theorem run {run : List (String × Span)} (hrun : run ≠ [])
    (hrest : ∀ n ∈ ns.head?, n.textSpan? = none) (h : g.AlikeImage g' (.nodes ns ops)) :
    g.AlikeImage g' (.nodes (run.map (fun part => .text part.1 part.2) ++ ns)
      (flush (joinedText? run) ++ ops)) := by
  intro ns' ops' hs hown hown' h'
  obtain ⟨run', rest', rfl, hrest'⟩ := Template.exists_run ns'
  obtain ⟨hiff, hjoin, hsame⟩ := hs.run_inv hrest hrest'
  obtain ⟨others, rfl, hothers⟩ := h'.run_inv (mt hiff.mp hrun) hrest'
  rw [Template.walkAll_append] at hown hown'
  have hbehind := h _ _ hsame (hown.mono (List.subset_append_right _ _))
    (hown'.mono (List.subset_append_right _ _)) hothers
  rw [Program.bareAll_append, Program.bareAll_append, bareAll_flush hjoin, hbehind]

theorem cons (hn : n.textSpan? = none) (hnode : g.AlikeImage g' (.node n op))
    (h : g.AlikeImage g' (.nodes ns ops)) : g.AlikeImage g' (.nodes (n :: ns) (op :: ops)) := by
  intro ns' ops' hs hown hown' h'
  obtain ⟨n', rest', rfl, hn', hcore, hsame⟩ := hs.cons_inv hn
  obtain ⟨op', others, rfl, hop, hothers⟩ := h'.cons_inv hn'
  have hhead := hnode _ _ hcore (hown.mono (List.subset_append_left _ _))
    (hown'.mono (List.subset_append_left _ _)) hop
  have hbehind := h _ _ hsame (hown.mono (List.subset_append_right _ _))
    (hown'.mono (List.subset_append_right _ _)) hothers
  rw [bareAll, bareAll, hhead, hbehind]

theorem block (h : g.AlikeImage g' (.nodes (ns.filter (·.definition?.isNone)) ops)) :
    g.AlikeImage g' (.block ns ops) := by
  intro ns' ops' hs hown hown' h'
  cases h' with
  | block h' =>
      exact h _ _ hs.filter (hown.mono (walkAll_filter_subset _))
        (hown'.mono (walkAll_filter_subset _)) h'

theorem arm {a : Arm Node} {condition : Option Program.Expr} (halike : Alike g g')
    (hc : g.expr? a.condition = .ok condition) (hb : g.AlikeImage g' (.block a.body ops))
    (h : g.AlikeImage g' (.arms arms images)) :
    g.AlikeImage g' (.arms (a :: arms) (⟨condition, ops⟩ :: images)) := by
  intro arms' images' hs hown hown' h'
  cases arms' with
  | nil => cases hs
  | cons a' arms' =>
      obtain ⟨harm, harms⟩ := List.cons.inj hs
      obtain ⟨hcondition, hbody, -⟩ := Arm.mk.inj harm
      cases h' with
      | @arm _ _ condition' ops' images' hc' hb' ha' =>
          have hconditions := halike.expr? hcondition (hown.conditions _ List.mem_cons_self)
            (hown'.conditions _ List.mem_cons_self)
          rw [hc, hc'] at hconditions
          have hops := hb _ _ hbody (hown.bodies.mono (List.subset_append_left _ _))
            (hown'.bodies.mono (List.subset_append_left _ _)) hb'
          have himages := h _ _ harms hown.tail hown'.tail ha'
          show Program.Arm.mk (condition'.map _) (bareAll ops') :: Program.bareArms images' = _
          rw [Except.ok.inj hconditions, hops, himages]
          rfl

end

end AlikeImage

theorem Mirrors.alike (halike : Alike g g') (hnone : g.includes = []) {x : Image}
    (h : g.Mirrors x) : g.AlikeImage g' x := by
  induction h with
  | invoke hc hb => exact .invoke halike hc hb
  | emit hc he => exact .emit halike hc he
  | branch _ ih => exact ih.branch
  | loop he _ _ ihb iho => exact .loop halike he ihb iho
  | callBlock hc _ ih => exact .callBlock halike hc ih
  | inclusion hp => rw [hnone] at hp; cases hp
  | store he => exact .store halike he
  | empty =>
      intro ns' ops' hs _ _ h'
      obtain rfl := hs.nil_inv
      rw [Mirrors.empty.onlyImage _ h']
  | run hrun hrest _ ih => exact .run hrun hrest ih
  | cons hn _ ihn ih => exact .cons hn.textSpan? ihn ih
  | block _ ih => exact .block ih
  | noArms =>
      intro arms' images' hs _ _ h'
      cases arms' with
      | nil => cases h'; rfl
      | cons a' arms' => cases hs
  | arm hc _ _ ihb ih => exact .arm halike hc ihb ih

/-! ## Programs -/

/-- Results of elements that go together are the same after `b`. -/
theorem results_map_eq {α β γ δ : Type} {f f' : α → Outcome β} {k : α → γ} {b : β → δ}
    {xs xs' : List α} {ys ys' : List β} (h : xs.map f = ys.map .ok) (h' : xs'.map f' = ys'.map .ok)
    (hk : xs'.map k = xs.map k)
    (hb : ∀ x ∈ xs, ∀ x' ∈ xs', k x' = k x → ∀ y y', f x = .ok y → f' x' = .ok y' → b y' = b y) :
    ys'.map b = ys.map b := by
  have hresults : (xs'.map f').map (Except.map b) = (xs.map f).map (Except.map b) := by
    rw [List.map_map, List.map_map]
    refine List.map_eq_of_map_eq hk fun x hx x' hx' heq => ?_
    obtain ⟨y, -, hy⟩ := List.mem_map.mp (h ▸ List.mem_map_of_mem hx)
    obtain ⟨y', -, hy'⟩ := List.mem_map.mp (h' ▸ List.mem_map_of_mem hx')
    rw [Function.comp, Function.comp, ← hy, ← hy']
    exact congrArg Except.ok (hb x hx x' hx' heq y y' hy.symm hy'.symm)
  have hinj : Function.Injective (Except.ok : δ → Outcome δ) := fun y y' heq => Except.ok.inj heq
  rw [h, h', List.map_map, List.map_map] at hresults
  refine List.map_injective_iff.mpr hinj ?_
  rw [List.map_map, List.map_map]
  exact hresults

theorem macroProgram_alike (halike : Alike g g') (hnone : g.includes = []) {d d' : MacroDef}
    (hd : (d'.respan fun _ => .blank).joined = (d.respan fun _ => .blank).joined)
    (hown : g.OwnsIn (Node.definition d).walk) (hown' : g'.OwnsIn (Node.definition d').walk)
    {m m' : MacroProgram Operation} (hm : g.macroProgram d = .ok m)
    (hm' : g'.macroProgram d' = .ok m') : m'.bare = m.bare := by
  obtain ⟨hname, hparams, hbody⟩ := macroProgram_spec hm
  obtain ⟨hname', hparams', hbody'⟩ := macroProgram_spec hm'
  obtain ⟨hnames, hbares, hbodies, -⟩ := MacroDefinition.mk.inj hd
  have hops : bareAll m'.body = bareAll m.body := by
    refine (block_mirrors (fun n _ => g.nodeMirrored n) hbody).alike halike hnone _ _ ?_
      (hown.mono (List.subset_cons_self _ _)) (hown'.mono (List.subset_cons_self _ _))
      (block_mirrors (fun n _ => g'.nodeMirrored n) hbody')
    unfold SameJoined
    rw [Template.bareNodes_eq_map, Template.bareNodes_eq_map, funext Node.bare_eq_respan]
    exact hbodies
  have hps : m'.params.map Program.bareParameter = m.params.map Program.bareParameter := by
    have hbare : d'.params.map Parameter.bare = d.params.map Parameter.bare := by
      rw [funext Parameter.bare_eq_respan]
      exact hbares
    refine results_map_eq hparams hparams' hbare fun p hp p' hp' heq q q' hq hq' => ?_
    have hparam := halike.param heq
      (fun e he => hown.held List.mem_cons_self (List.mem_filterMap.mpr ⟨p, hp, he⟩))
      (fun e he => hown'.held List.mem_cons_self (List.mem_filterMap.mpr ⟨p', hp', he⟩))
    rw [hq, hq'] at hparam
    exact Except.ok.inj hparam
  rw [MacroProgram.bare, MacroProgram.bare, hname, hname', hps, hops]
  exact congrArg (MacroProgram.mk · _ _) hnames

theorem program_unit {t : Template} {unit : String} {program : Program}
    (h : g.program t unit = .ok program) : program.unit = unit := by
  simp only [Generator.program, Except.bind_eq_ok_iff] at h
  obtain ⟨macros, -, ops, -, heq⟩ := h
  obtain rfl := Except.ok.inj heq
  rfl

/-- Templates that are the same, joined and bare, become programs that are the same bare. -/
theorem program_alike {t t' : Template} {escaper unit : String} {program program' : Program}
    (h : t'.bare.joined = t.bare.joined)
    (hown : (ofTemplate t [] escaper).OwnsIn (walkAll t.body))
    (hown' : (ofTemplate t' [] escaper).OwnsIn (walkAll t'.body))
    (hprogram : (ofTemplate t [] escaper).program t unit = .ok program)
    (hprogram' : (ofTemplate t' [] escaper).program t' unit = .ok program') :
    program'.bare = program.bare := by
  have halike : Alike (ofTemplate t [] escaper) (ofTemplate t' [] escaper) :=
    ⟨macroTable_core_eq h, rfl⟩
  obtain ⟨hmacros, hops⟩ := program_spec hprogram
  obtain ⟨hmacros', hops'⟩ := program_spec hprogram'
  have hbody : bareAll program'.ops = bareAll program.ops :=
    (block_mirrors (fun n _ => nodeMirrored _ n) hops).alike halike rfl _ _
      (congrArg Template.body h) hown hown' (block_mirrors (fun n _ => nodeMirrored _ n) hops')
  have hdefinitions := congrArg MacroTable.definitions (macroTable_core_eq h)
  rw [MacroTable.core, MacroTable.core, MacroTable.joined, MacroTable.joined, MacroTable.respan,
    MacroTable.respan, MacroTable.map, MacroTable.map, MacroTable.map, MacroTable.map,
    List.map_map, List.map_map] at hdefinitions
  have hmacro : program'.macros.map MacroProgram.bare = program.macros.map MacroProgram.bare :=
    results_map_eq hmacros hmacros' hdefinitions fun d hd d' hd' heq m m' hm hm' =>
      macroProgram_alike halike rfl heq
        (hown.mono fun x hx => Template.mem_walkAll_trans (t.mem_macroTable hd) hx)
        (hown'.mono fun x hx => Template.mem_walkAll_trans (t'.mem_macroTable hd') hx) hm hm'
  have hunit := (program_unit hprogram').trans (program_unit hprogram).symm
  rw [ProgramOver.bare, ProgramOver.bare, hunit, hbody, Program.bareMacros_eq_map, hmacro,
    Program.bareMacros_eq_map]

/-! ## Parsed templates -/

section

variable {setting setting' : Parser.Setting} {delimiters delimiters' : Delimiters}
  {source source' : String} {parsed parsed' : Parsed}

theorem ownsIn_of_parse (h : parse setting delimiters source = .ok parsed)
    (hproblems : (bindAll parsed.template parsed.template.macroTable.1).2 = [])
    (includes : Inclusions) (escaper : String) :
    (ofTemplate parsed.template includes escaper).OwnsIn (walkAll parsed.template.body) := by
  intro n hn c hc
  have hspans := parse_spans_nodup h parsed.template.macroTable.1
  have hcall : c ∈ parsed.template.callSites parsed.template.macroTable.1 :=
    List.mem_flatMap.mpr ⟨n, hn, hc⟩
  obtain ⟨bound, hbound⟩ := bind_ok_of_bindAll hspans hproblems hcall
  exact ⟨bound, bindAll_lookup hspans hcall hbound, hbound⟩

/-- Templates without include tags that are the same, joined and bare, become the same programs as
soon as the calls of one of them bind. -/
theorem exists_programs_alike (h : parse setting delimiters source = .ok parsed)
    (h' : parse setting' delimiters' source' = .ok parsed')
    (hsame : parsed'.template.bare.joined = parsed.template.bare.joined)
    (hproblems : (bindAll parsed.template parsed.template.macroTable.1).2 = [])
    (htags : Compiler.includeTags parsed.template = []) (escaper unit : String) :
    ∃ program program',
      (ofTemplate parsed.template [] escaper).program parsed.template unit = .ok program ∧
      (ofTemplate parsed'.template [] escaper).program parsed'.template unit = .ok program' ∧
      program'.bare = program.bare := by
  have hincluded : ∀ {t : Template}, Compiler.includeTags t = [] → ∀ path s,
      .inclusion path s ∈ walkAll t.body →
        ∃ program, ([] : Inclusions).lookup s = some program := by
    intro t ht path s hmem
    rw [Compiler.includeTags_eq, List.filterMap_eq_nil_iff] at ht
    cases ht _ hmem
  have hproblems' : (bindAll parsed'.template parsed'.template.macroTable.1).2 = [] := by
    have heq := bindAll_problems_of_joined hsame
    rw [hproblems] at heq
    exact List.map_eq_nil_iff.mp heq
  obtain ⟨program, hprogram⟩ := exists_program_of_parse h hproblems (hincluded htags) escaper unit
  obtain ⟨program', hprogram'⟩ := exists_program_of_parse h' hproblems'
    (hincluded (includeTags_eq_nil_of_joined hsame htags)) escaper unit
  exact ⟨program, program', hprogram, hprogram', program_alike hsame
    (ownsIn_of_parse h hproblems [] escaper) (ownsIn_of_parse h' hproblems' [] escaper)
    hprogram hprogram'⟩

end

end Generator

end TemplateCompiler
