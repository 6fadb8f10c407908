import TemplateCompiler.Macro.Binding
import TemplateCompiler.Proofs.Lookup
import TemplateCompiler.Proofs.Tables

/-!
# What binding a call comes to

A call is bound by assigning values to names and looking the parameters up. Here the same is said
without the assignment: what a parameter receives is read off the call (`MacroCall.receive?`), a
call binds exactly if it `Fits` the parameters, and if it does not, the problem is the one of the
first rule that it `Breaks`.

All of it rests on the parameters having different names, as those of a parsed template have.
-/

namespace TemplateCompiler

open Template (Expr)

/-! ## The rules -/

/-- Named arguments that a call may pass where the names `taken` are filled by position. -/
structure Accepts (params : List (Parameter Expr)) (taken : List String)
    (named : List (NamedArgument Expr)) : Prop where
  known : ∀ a ∈ named, a.name ∈ params.map (·.name)
  free : ∀ a ∈ named, a.name ∉ taken
  distinct : (named.map (·.name)).Nodup

/-- The first of the named arguments that may not be passed, and why. -/
inductive Refuses (name : String) (params : List (Parameter Expr)) (taken : List String)
    (named : List (NamedArgument Expr)) : Located BindProblem → Prop
  | unknown {before a after} (hnamed : named = before ++ a :: after)
      (hbefore : Accepts params taken before) (ha : a.name ∉ params.map (·.name)) :
      Refuses name params taken named ⟨.unknownArgument name a.name, a.span⟩
  | repeated {before a after} (hnamed : named = before ++ a :: after)
      (hbefore : Accepts params taken before) (hknown : a.name ∈ params.map (·.name))
      (ha : a.name ∈ taken ∨ a.name ∈ before.map (·.name)) :
      Refuses name params taken named ⟨.repeatedArgument name a.name, a.span⟩

namespace MacroCall

/-- The names of the parameters that positional arguments fill. -/
def taken (call : MacroCall) (params : List (Parameter Expr)) : List String :=
  (params.take call.args.length).map (·.name)

/-- What the parameter of that index receives: the positional argument of the index, else the named
argument of its name, else its default. -/
def receive? (call : MacroCall) (index : Nat) (p : Parameter Expr) : Option (BoundArgument Expr) :=
  match call.args[index]? with
  | some value => some (.given p value)
  | none =>
    match call.named.find? (·.name = p.name) with
    | some a => some (.given p a.value)
    | none => p.default.map (.default p ·)

/-- The parameters that receive nothing, in the order of their declaration. -/
def missing (call : MacroCall) (params : List (Parameter Expr)) : List String :=
  ((params.drop call.args.length).filter fun p =>
    p.default.isNone && !call.named.any (·.name = p.name)).map (·.name)

end MacroCall

/-- Every rule is kept. -/
structure Fits (params : List (Parameter Expr)) (call : MacroCall) : Prop where
  arity : call.args.length ≤ params.length
  named : Accepts params (call.taken params) call.named
  filled : ∀ i p, params[i]? = some p → p.default = none →
    i < call.args.length ∨ p.name ∈ call.named.map (·.name)

/-- The problem of the first rule that is broken. -/
inductive Breaks (table : MacroTable) (call : MacroCall) : Located BindProblem → Prop
  | undefined (hd : table.lookup? call.name = none) :
      Breaks table call ⟨.undefined call.name, call.span⟩
  | tooMany {d} (hd : table.lookup? call.name = some d)
      (harity : d.params.length < call.args.length) :
      Breaks table call
        ⟨.tooManyArguments call.name d.params.length call.args.length, call.argsSpan⟩
  | named {d problem} (hd : table.lookup? call.name = some d)
      (harity : call.args.length ≤ d.params.length)
      (hnamed : Refuses call.name d.params (call.taken d.params) call.named problem) :
      Breaks table call problem
  | missing {d first more} (hd : table.lookup? call.name = some d)
      (harity : call.args.length ≤ d.params.length)
      (hnamed : Accepts d.params (call.taken d.params) call.named)
      (hmissing : call.missing d.params = first :: more) :
      Breaks table call ⟨.missingArguments call.name first more, call.argsSpan⟩

/-! ## Named arguments -/

section

variable {params : List (Parameter Expr)} {taken : List String} {a : NamedArgument Expr}
  {named : List (NamedArgument Expr)}

theorem Accepts.nil : Accepts params taken [] where
  known := List.forall_mem_nil _
  free := List.forall_mem_nil _
  distinct := List.nodup_nil

theorem accepts_cons_iff :
    Accepts params taken (a :: named) ↔
      a.name ∈ params.map (·.name) ∧ a.name ∉ taken ∧ Accepts params (a.name :: taken) named := by
  constructor
  · rintro ⟨hknown, hfree, hdistinct⟩
    obtain ⟨hnew, hdistinct⟩ := List.nodup_cons.mp hdistinct
    refine ⟨hknown a List.mem_cons_self, hfree a List.mem_cons_self, ?_, ?_, hdistinct⟩
    · exact fun b hb => hknown b (List.mem_cons_of_mem a hb)
    · intro b hb hmem
      rcases List.mem_cons.mp hmem with heq | hmem
      · exact hnew (List.mem_map.mpr ⟨b, hb, heq⟩)
      · exact hfree b (List.mem_cons_of_mem a hb) hmem
  · rintro ⟨hknown, hfree, hrest⟩
    refine ⟨List.forall_mem_cons.mpr ⟨hknown, hrest.known⟩, ?_, ?_⟩
    · refine List.forall_mem_cons.mpr ⟨hfree, fun b hb hmem => ?_⟩
      exact hrest.free b hb (List.mem_cons_of_mem _ hmem)
    · refine List.nodup_cons.mpr ⟨fun hmem => ?_, hrest.distinct⟩
      obtain ⟨b, hb, heq⟩ := List.mem_map.mp hmem
      exact hrest.free b hb (heq ▸ List.mem_cons_self)

/-- The first argument is refused, or may be passed, and then one behind it is refused as if its
name were filled. -/
theorem refuses_cons_iff {name : String} {problem : Located BindProblem} :
    Refuses name params taken (a :: named) problem ↔
      (a.name ∉ params.map (·.name) ∧ problem = ⟨.unknownArgument name a.name, a.span⟩) ∨
      (a.name ∈ params.map (·.name) ∧ a.name ∈ taken ∧
        problem = ⟨.repeatedArgument name a.name, a.span⟩) ∨
      (a.name ∈ params.map (·.name) ∧ a.name ∉ taken ∧
        Refuses name params (a.name :: taken) named problem) := by
  constructor
  · rintro (@⟨before, b, after, hsplit, hbefore, hb⟩ |
      @⟨before, b, after, hsplit, hbefore, hb, hrep⟩)
    · cases before with
      | nil =>
          obtain ⟨rfl, rfl⟩ := List.cons.inj hsplit
          exact .inl ⟨hb, rfl⟩
      | cons c before =>
          obtain ⟨rfl, rfl⟩ := List.cons.inj hsplit
          obtain ⟨hknown, hfree, hbefore⟩ := accepts_cons_iff.mp hbefore
          exact .inr (.inr ⟨hknown, hfree, .unknown rfl hbefore hb⟩)
    · cases before with
      | nil =>
          obtain ⟨rfl, rfl⟩ := List.cons.inj hsplit
          exact .inr (.inl ⟨hb, by simpa using hrep, rfl⟩)
      | cons c before =>
          obtain ⟨rfl, rfl⟩ := List.cons.inj hsplit
          obtain ⟨hknown, hfree, hbefore⟩ := accepts_cons_iff.mp hbefore
          refine .inr (.inr ⟨hknown, hfree, .repeated rfl hbefore hb ?_⟩)
          simp only [List.map_cons, List.mem_cons] at hrep ⊢
          tauto
  · rintro (⟨ha, rfl⟩ | ⟨hknown, ha, rfl⟩ | ⟨hknown, hfree, hrest⟩)
    · exact .unknown (List.nil_append _).symm .nil ha
    · exact .repeated (List.nil_append _).symm .nil hknown (.inl ha)
    · rcases hrest with ⟨rfl, hbefore, hb⟩ | ⟨rfl, hbefore, hb, hrep⟩
      · exact .unknown List.cons_append.symm (accepts_cons_iff.mpr ⟨hknown, hfree, hbefore⟩) hb
      · refine .repeated List.cons_append.symm (accepts_cons_iff.mpr ⟨hknown, hfree, hbefore⟩) hb ?_
        simp only [List.map_cons, List.mem_cons] at hrep ⊢
        tauto

/-- Named arguments are added, latest first, to what is assigned already. -/
theorem assignNamed_ok_iff (call : MacroCall) (assigned result : Assigned) :
    assignNamed call params assigned named = .ok result ↔
      Accepts params (assigned.map Prod.fst) named ∧
        result = (named.map fun a => (a.name, a.value)).reverse ++ assigned := by
  induction named generalizing assigned with
  | nil => simp [assignNamed, Accepts.nil, eq_comm]
  | cons a named ih =>
      rw [accepts_cons_iff, assignNamed]
      split
      · next hunknown =>
          have hnot : a.name ∉ params.map (·.name) := by simpa using hunknown
          exact ⟨nofun, fun h => absurd h.1.1 hnot⟩
      · next hknown =>
          have hmem : a.name ∈ params.map (·.name) := by simpa using hknown
          split
          · next hassigned =>
              rw [lookup_isSome_iff_mem] at hassigned
              exact ⟨nofun, fun h => absurd hassigned h.1.2.1⟩
          · next hfree =>
              rw [lookup_isSome_iff_mem] at hfree
              rw [ih]
              simp [hmem, hfree]

theorem assignNamed_error_iff (call : MacroCall) (assigned : Assigned)
    (problem : Located BindProblem) :
    assignNamed call params assigned named = .error problem ↔
      Refuses call.name params (assigned.map Prod.fst) named problem := by
  induction named generalizing assigned with
  | nil =>
      refine ⟨nofun, ?_⟩
      rintro (⟨hsplit, -⟩ | ⟨hsplit, -⟩) <;> exact absurd hsplit (by simp)
  | cons a named ih =>
      rw [assignNamed, refuses_cons_iff]
      split
      · next hunknown =>
          have hnot : a.name ∉ params.map (·.name) := by simpa using hunknown
          simp [hnot, eq_comm]
      · next hknown =>
          have hmem : a.name ∈ params.map (·.name) := by simpa using hknown
          split
          · next htaken =>
              rw [lookup_isSome_iff_mem] at htaken
              simp [hmem, htaken, eq_comm]
          · next hfree =>
              rw [lookup_isSome_iff_mem] at hfree
              rw [ih]
              simp [hmem, hfree]

end

/-! ## Parameters -/

/-- What is assigned when the arguments of a call are accepted. -/
def MacroCall.assigned (call : MacroCall) (params : List (Parameter Expr)) : Assigned :=
  (call.named.map fun a => (a.name, a.value)).reverse ++ assignPositional params call.args

theorem assignPositional_keys (params : List (Parameter Expr)) (call : MacroCall) :
    (assignPositional params call.args).map Prod.fst = call.taken params := by
  rw [assignPositional, map_fst_zip_eq_take, MacroCall.taken, List.map_take]

theorem lookup_named (named : List (NamedArgument Expr)) (name : String) :
    (named.map fun a => (a.name, a.value)).lookup name =
      (named.find? (·.name = name)).map (·.value) := by
  induction named with
  | nil => rfl
  | cons a named ih =>
      rw [List.map_cons, List.lookup_cons, List.find?_cons, ih]
      by_cases h : a.name = name
      · simp [h]
      · simp [h, beq_false_of_ne (Ne.symm h)]

section

variable {params : List (Parameter Expr)} {call : MacroCall}

/-- The name of a parameter that a positional argument fills is taken. -/
theorem mem_taken {i : Nat} {p : Parameter Expr} (hp : params[i]? = some p)
    (hi : i < call.args.length) : p.name ∈ call.taken params := by
  refine List.mem_map.mpr ⟨p, List.mem_of_getElem? (i := i) ?_, rfl⟩
  rw [List.getElem?_take, if_pos hi, hp]

theorem receive?_assigned (hparams : (params.map (·.name)).Nodup)
    (hnamed : Accepts params (call.taken params) call.named) {i : Nat} {p : Parameter Expr}
    (hp : params[i]? = some p) : receive? (call.assigned params) p = call.receive? i p := by
  have hkeys : ((call.named.map fun a => (a.name, a.value)).map Prod.fst).Nodup := by
    rw [List.map_map]
    exact hnamed.distinct
  have hname : (params.map (·.name))[i]? = some p.name := by
    rw [List.getElem?_map, hp]
    rfl
  unfold receive? MacroCall.receive?
  rw [MacroCall.assigned, List.lookup_append, lookup_reverse hkeys, lookup_named,
    assignPositional, lookup_zip hparams hname]
  cases hi : call.args[i]? with
  | none => cases call.named.find? (·.name = p.name) <;> rfl
  | some value =>
      have hfree : call.named.find? (·.name = p.name) = none := by
        refine List.find?_eq_none.mpr fun a ha heq => ?_
        have hi := (List.getElem?_eq_some_iff.mp hi).1
        exact hnamed.free a ha (of_decide_eq_true heq ▸ mem_taken hp hi)
      rw [hfree]
      rfl

theorem MacroCall.receive?_isNone_of_le {i : Nat} {p : Parameter Expr}
    (hi : call.args.length ≤ i) :
    (call.receive? i p).isNone = (p.default.isNone && !call.named.any (·.name = p.name)) := by
  unfold receive?
  rw [List.getElem?_eq_none hi]
  cases h : call.named.find? (·.name = p.name) with
  | none =>
      have hany : call.named.any (·.name = p.name) = false := by
        simpa using List.find?_eq_none.mp h
      simp [hany]
  | some a =>
      have hany : call.named.any (·.name = p.name) = true :=
        List.any_eq_true.mpr ⟨a, List.mem_of_find?_eq_some h, by simpa using List.find?_some h⟩
      simp [hany]

theorem MacroCall.receive?_isSome_of_lt {i : Nat} {p : Parameter Expr}
    (hi : i < call.args.length) : (call.receive? i p).isSome := by
  unfold receive?
  rw [List.getElem?_eq_getElem hi]
  rfl

theorem MacroCall.mem_exprs_of_receive? {i : Nat} {p q : Parameter Expr} {value : Expr}
    (h : call.receive? i p = some (.given q value)) : value ∈ call.exprs := by
  unfold receive? at h
  split at h
  · next hi =>
      obtain ⟨-, rfl⟩ := BoundArgument.given.inj (Option.some.inj h)
      exact List.mem_append_left _ (List.mem_of_getElem? hi)
  · split at h
    · next a hfind =>
        obtain ⟨-, rfl⟩ := BoundArgument.given.inj (Option.some.inj h)
        exact List.mem_append_right _ (List.mem_map.mpr ⟨a, List.mem_of_find?_eq_some hfind, rfl⟩)
    · obtain ⟨default, -, heq⟩ := Option.map_eq_some_iff.mp h
      cases heq

/-- Every given value that is bound is among those of the call. -/
theorem MacroCall.mem_exprs_of_given {bound : List (BoundArgument Expr)}
    (hbound : bound.map some = params.mapIdx call.receive?) {p : Parameter Expr} {value : Expr}
    (h : .given p value ∈ bound) : value ∈ call.exprs := by
  have hmem : some (.given p value) ∈ params.mapIdx call.receive? := hbound ▸ List.mem_map_of_mem h
  obtain ⟨i, hi, heq⟩ := List.mem_mapIdx.mp hmem
  exact mem_exprs_of_receive? heq

theorem missingNames_assigned (hparams : (params.map (·.name)).Nodup)
    (hnamed : Accepts params (call.taken params) call.named) :
    missingNames (call.assigned params) params = call.missing params := by
  have hfilled : (params.take call.args.length).filter
      (fun p => (receive? (call.assigned params) p).isNone) = [] := by
    refine List.filter_eq_nil_iff.mpr fun p hp => ?_
    obtain ⟨i, hi⟩ := List.mem_iff_getElem?.mp hp
    rw [List.getElem?_take] at hi
    split at hi
    · next hlt =>
        rw [receive?_assigned hparams hnamed hi]
        simpa [Option.isSome_iff_ne_none] using MacroCall.receive?_isSome_of_lt (p := p) hlt
    · cases hi
  have hrest : ∀ p ∈ params.drop call.args.length,
      (receive? (call.assigned params) p).isNone =
        (p.default.isNone && !call.named.any (·.name = p.name)) := by
    intro p hp
    obtain ⟨i, hi⟩ := List.mem_iff_getElem?.mp hp
    rw [List.getElem?_drop] at hi
    rw [receive?_assigned hparams hnamed hi]
    exact MacroCall.receive?_isNone_of_le (Nat.le_add_right _ _)
  have hsplit := List.filter_append (p := fun p => (receive? (call.assigned params) p).isNone)
    (params.take call.args.length) (params.drop call.args.length)
  rw [List.take_append_drop, hfilled, List.nil_append, List.filter_congr hrest] at hsplit
  rw [missingNames, hsplit]
  rfl

/-- The parameters without a default are filled exactly if none is missing. -/
theorem missing_eq_nil_iff :
    call.missing params = [] ↔ ∀ i p, params[i]? = some p → p.default = none →
      i < call.args.length ∨ p.name ∈ call.named.map (·.name) := by
  rw [MacroCall.missing, List.map_eq_nil_iff, List.filter_eq_nil_iff]
  constructor
  · intro h i p hp hdefault
    by_cases hi : i < call.args.length
    · exact .inl hi
    · have hmem : p ∈ params.drop call.args.length := by
        refine List.mem_of_getElem? (i := i - call.args.length) ?_
        rw [List.getElem?_drop, Nat.add_sub_cancel' (Nat.le_of_not_lt hi), hp]
      have hnamed := h p hmem
      simp only [hdefault, Option.isNone_none, Bool.true_and, Bool.not_eq_true', Bool.not_eq_false,
        List.any_eq_true, decide_eq_true_eq] at hnamed
      exact .inr (List.mem_map.mpr hnamed)
  · intro h p hp
    obtain ⟨i, hi⟩ := List.mem_iff_getElem?.mp hp
    rw [List.getElem?_drop] at hi
    simp only [Bool.and_eq_true, Option.isNone_iff_eq_none, Bool.not_eq_true', not_and,
      Bool.not_eq_false, List.any_eq_true, decide_eq_true_eq]
    intro hdefault
    rcases h _ p hi hdefault with hlt | hnamed
    · omega
    · exact List.mem_map.mp hnamed

theorem filterMap_receive? (hparams : (params.map (·.name)).Nodup)
    (hnamed : Accepts params (call.taken params) call.named)
    (hfilled : call.missing params = []) :
    (params.filterMap (receive? (call.assigned params))).map some =
      params.mapIdx call.receive? := by
  rw [← missingNames_assigned hparams hnamed, missingNames, List.map_eq_nil_iff,
    List.filter_eq_nil_iff] at hfilled
  have hsome : ∀ p ∈ params, (receive? (call.assigned params) p).isSome := by
    intro p hp
    simpa [Option.isSome_iff_ne_none] using hfilled p hp
  have hall : (params.filterMap (receive? (call.assigned params))).map some =
      params.map (receive? (call.assigned params)) := by
    rw [List.map_filterMap, ← List.filterMap_eq_map]
    refine List.filterMap_congr fun p hp => ?_
    obtain ⟨b, hb⟩ := Option.isSome_iff_exists.mp (hsome p hp)
    simp [hb]
  rw [hall]
  refine List.ext_getElem? fun i => ?_
  rw [List.getElem?_map, List.getElem?_mapIdx]
  cases hp : params[i]? with
  | none => rfl
  | some p => exact congrArg some (receive?_assigned hparams hnamed hp)

/-! ## One call -/

/-- Binding once the macro is known and the positional arguments are not too many. -/
theorem bind_eq {table : MacroTable} {d : MacroDef} (hd : table.lookup? call.name = some d)
    (harity : call.args.length ≤ d.params.length) :
    bind table call =
      (assignNamed call d.params (assignPositional d.params call.args) call.named).bind
        fun assigned =>
          match missingNames assigned d.params with
          | first :: more => .error ⟨.missingArguments call.name first more, call.argsSpan⟩
          | [] => .ok ⟨call.name, d.params.filterMap (receive? assigned)⟩ := by
  rw [bind, hd]
  simp only [if_neg (Nat.not_lt.mpr harity)]
  rfl

/-- A call that fits is bound parameter by parameter. -/
theorem bind_of_fits {table : MacroTable} {d : MacroDef} (hparams : (d.params.map (·.name)).Nodup)
    (hd : table.lookup? call.name = some d) (h : Fits d.params call) :
    ∃ b, bind table call = .ok b ∧ b.definition = call.name ∧
      b.arguments.map some = d.params.mapIdx call.receive? := by
  have hassigned : assignNamed call d.params (assignPositional d.params call.args) call.named =
      .ok (call.assigned d.params) := by
    refine (assignNamed_ok_iff call _ _).mpr ⟨?_, rfl⟩
    rw [assignPositional_keys]
    exact h.named
  have hmissing : call.missing d.params = [] := missing_eq_nil_iff.mpr h.filled
  refine ⟨⟨call.name, d.params.filterMap (receive? (call.assigned d.params))⟩, ?_, rfl,
    filterMap_receive? hparams h.named hmissing⟩
  rw [bind_eq hd h.arity, hassigned]
  simp only [Except.bind, missingNames_assigned hparams h.named, hmissing]

/-- The rules are checked in order, so the first that is broken decides. -/
theorem bind_of_breaks {table : MacroTable} {problem : Located BindProblem}
    (hparams : ∀ d, table.lookup? call.name = some d → (d.params.map (·.name)).Nodup)
    (h : Breaks table call problem) : bind table call = .error problem := by
  cases h with
  | undefined hd => rw [bind, hd]
  | tooMany hd harity =>
      rw [bind, hd]
      simp only [if_pos harity]
  | named hd harity hnamed =>
      rw [← assignPositional_keys] at hnamed
      rw [bind_eq hd harity, (assignNamed_error_iff call _ _).mpr hnamed]
      rfl
  | @missing d first more hd harity hnamed hmissing =>
      have hassigned : assignNamed call d.params (assignPositional d.params call.args) call.named =
          .ok (call.assigned d.params) := by
        refine (assignNamed_ok_iff call _ _).mpr ⟨?_, rfl⟩
        rw [assignPositional_keys]
        exact hnamed
      rw [bind_eq hd harity, hassigned]
      simp only [Except.bind, missingNames_assigned (hparams d hd) hnamed, hmissing]

/-- Every call fits or breaks a rule. -/
theorem fits_or_breaks (table : MacroTable) (call : MacroCall) :
    (∃ d, table.lookup? call.name = some d ∧ Fits d.params call) ∨
      ∃ problem, Breaks table call problem := by
  cases hd : table.lookup? call.name with
  | none => exact .inr ⟨_, .undefined hd⟩
  | some d =>
      by_cases harity : call.args.length ≤ d.params.length
      · cases hassign :
            assignNamed call d.params (assignPositional d.params call.args) call.named with
        | error problem =>
            have hnamed := (assignNamed_error_iff call _ _).mp hassign
            rw [assignPositional_keys] at hnamed
            exact .inr ⟨problem, .named hd harity hnamed⟩
        | ok assigned =>
            have hnamed := ((assignNamed_ok_iff call _ _).mp hassign).1
            rw [assignPositional_keys] at hnamed
            cases hmissing : call.missing d.params with
            | nil => exact .inl ⟨d, rfl, harity, hnamed, missing_eq_nil_iff.mp hmissing⟩
            | cons first more => exact .inr ⟨_, .missing hd harity hnamed hmissing⟩
      · exact .inr ⟨_, .tooMany hd (Nat.lt_of_not_le harity)⟩

/-! ## The arguments of a call -/

/-- The argument that was given for a parameter, if it did not receive its default. -/
def BoundArgument.given? {ε : Type} : BoundArgument ε → Option ε
  | .given _ value => some value
  | .default _ _ => none

/-- Parameters of different names take each named argument once. -/
theorem named_perm {named : List (NamedArgument Expr)} (hparams : (params.map (·.name)).Nodup)
    (hknown : ∀ a ∈ named, a.name ∈ params.map (·.name)) (hdistinct : (named.map (·.name)).Nodup) :
    (params.filterMap fun p => (named.find? (·.name = p.name)).map (·.value)).Perm
      (named.map (·.value)) := by
  induction named with
  | nil => simp
  | cons a named ih =>
      obtain ⟨hnew, hdistinct⟩ := List.nodup_cons.mp hdistinct
      obtain ⟨ha, hknown⟩ := List.forall_mem_cons.mp hknown
      obtain ⟨p, hp, hname⟩ := List.mem_map.mp ha
      obtain ⟨before, after, rfl⟩ := List.append_of_mem hp
      have hothers : ∀ q ∈ before ++ after, a.name ≠ q.name := by
        intro q hq heq
        rw [List.map_append, List.map_cons, List.nodup_middle, ← List.map_append] at hparams
        exact (List.nodup_cons.mp hparams).1 (List.mem_map.mpr ⟨q, hq, heq ▸ hname.symm⟩)
      have hskip : ∀ qs : List (Parameter Expr), (∀ q ∈ qs, a.name ≠ q.name) →
          qs.filterMap (fun q => ((a :: named).find? (·.name = q.name)).map (·.value)) =
            qs.filterMap fun q => (named.find? (·.name = q.name)).map (·.value) := by
        refine fun qs hqs => List.filterMap_congr fun q hq => ?_
        rw [List.find?_cons_of_neg (by simpa using hqs q hq)]
      have hnone : named.find? (·.name = p.name) = none := by
        refine List.find?_eq_none.mpr fun b hb heq => hnew ?_
        exact List.mem_map.mpr ⟨b, hb, (of_decide_eq_true heq).trans hname⟩
      have hrest := ih hknown hdistinct
      rw [List.filterMap_append, List.filterMap_cons_none (by rw [hnone]; rfl)] at hrest
      rw [List.filterMap_append, List.filterMap_cons_some (by simp [hname]; rfl),
        hskip before fun q hq => hothers q (List.mem_append_left _ hq),
        hskip after fun q hq => hothers q (List.mem_append_right _ hq)]
      exact List.perm_middle.trans (hrest.cons _)

/-- Where arguments are left, parameters in front take those in front. -/
theorem given_perm_of_drop {name : String} {args : List Expr} {named : List (NamedArgument Expr)}
    {argsSpan span : Span} {bound : List (BoundArgument Expr)}
    (hparams : (params.map (·.name)).Nodup) (harity : args.length ≤ params.length)
    (hknown : ∀ a ∈ named, a.name ∈ (params.drop args.length).map (·.name))
    (hdistinct : (named.map (·.name)).Nodup)
    (hbound : bound.map some =
      params.mapIdx (MacroCall.receive? ⟨name, args, named, argsSpan, span⟩)) :
    (bound.filterMap BoundArgument.given?).Perm (args ++ named.map (·.value)) := by
  induction args generalizing params bound with
  | nil =>
      have hgiven : bound.filterMap BoundArgument.given? =
          params.filterMap fun p => (named.find? (·.name = p.name)).map (·.value) := by
        have hindex : params.mapIdx (MacroCall.receive? ⟨name, [], named, argsSpan, span⟩) =
            params.map (MacroCall.receive? ⟨name, [], named, argsSpan, span⟩ 0) := by
          refine List.ext_getElem? fun i => ?_
          rw [List.getElem?_mapIdx, List.getElem?_map]
          rfl
        have hvalues := congrArg (List.filterMap (Option.bind · BoundArgument.given?)) hbound
        rw [hindex, List.filterMap_map, List.filterMap_map] at hvalues
        refine Eq.trans hvalues (List.filterMap_congr fun p _ => ?_)
        simp only [Function.comp_apply, MacroCall.receive?, List.getElem?_nil]
        cases named.find? (·.name = p.name) with
        | none => cases p.default <;> rfl
        | some a => rfl
      rw [hgiven]
      exact named_perm hparams hknown hdistinct
  | cons e args ih =>
      cases params with
      | nil => simp at harity
      | cons p params =>
          rw [List.mapIdx_cons] at hbound
          cases bound with
          | nil => cases hbound
          | cons b bound =>
              obtain ⟨hhead, htail⟩ := List.cons.inj hbound
              obtain rfl : b = .given p e := Option.some.inj hhead
              have hrest := ih (List.nodup_cons.mp hparams).2 (Nat.le_of_succ_le_succ harity)
                hknown htail
              exact hrest.cons e

/-- Every argument of a call that fits is received once. -/
theorem given_perm {bound : List (BoundArgument Expr)} (hparams : (params.map (·.name)).Nodup)
    (h : Fits params call) (hbound : bound.map some = params.mapIdx call.receive?) :
    (bound.filterMap BoundArgument.given?).Perm call.exprs := by
  refine given_perm_of_drop hparams h.arity ?_ h.named.distinct hbound
  intro a ha
  have hknown := h.named.known a ha
  rw [← List.take_append_drop call.args.length params, List.map_append, List.mem_append] at hknown
  exact hknown.resolve_left (h.named.free a ha)

end

/-! ## Macros of a parsed template -/

/-- Binding goes by the rules, and a call that keeps them gives every parameter its value. -/
structure BindsByRules (table : MacroTable) (call : MacroCall) : Prop where
  succeeds : (∃ b, bind table call = .ok b) ↔
    ∃ d, table.lookup? call.name = some d ∧ Fits d.params call
  receives : ∀ b, bind table call = .ok b →
    ∃ d, table.lookup? call.name = some d ∧ b.definition = call.name ∧
      b.arguments.map some = d.params.mapIdx call.receive? ∧
      (b.arguments.filterMap BoundArgument.given?).Perm call.exprs
  problem : ∀ problem, bind table call = .error problem ↔ Breaks table call problem

theorem bindsByRules_of_nodup {table : MacroTable} {call : MacroCall}
    (hparams : ∀ d, table.lookup? call.name = some d → (d.params.map (·.name)).Nodup) :
    BindsByRules table call := by
  rcases fits_or_breaks table call with ⟨d, hd, hfits⟩ | ⟨problem, hbreaks⟩
  · obtain ⟨b, hb, hname, hreceived⟩ := bind_of_fits (hparams d hd) hd hfits
    have hperm := given_perm (hparams d hd) hfits hreceived
    refine ⟨⟨fun _ => ⟨d, hd, hfits⟩, fun _ => ⟨b, hb⟩⟩, ?_, fun problem => ⟨?_, ?_⟩⟩
    · intro b' hb'
      obtain rfl := Except.ok.inj (hb.symm.trans hb')
      exact ⟨d, hd, hname, hreceived, hperm⟩
    · intro herror
      cases hb.symm.trans herror
    · exact bind_of_breaks hparams
  · have herror := bind_of_breaks hparams hbreaks
    refine ⟨⟨?_, ?_⟩, ?_, fun problem' => ⟨?_, bind_of_breaks hparams⟩⟩
    · rintro ⟨b, hb⟩
      cases herror.symm.trans hb
    · rintro ⟨d, hd, hfits⟩
      obtain ⟨b, hb, -⟩ := bind_of_fits (hparams d hd) hd hfits
      cases herror.symm.trans hb
    · intro b hb
      cases herror.symm.trans hb
    · intro h
      obtain rfl := Except.error.inj (herror.symm.trans h)
      exact hbreaks

/-- Calls of the macros of a parsed template are bound by the rules, whatever its tokens are. -/
theorem parseTokens_bindsByRules {setting : Parser.Setting} {tokens : List Token}
    {fault : Option LexicalFault} {parsed : Parsed}
    (h : parseTokens setting tokens fault = .ok parsed) (call : MacroCall) :
    BindsByRules parsed.template.macroTable.1 call :=
  bindsByRules_of_nodup fun _ hd =>
    (parseTokens_composes h).params_nodup (MacroTable.lookup?_some hd).1

/-- A macro with a default in front, and a call that names the other parameter. -/
theorem bindsByRules_of_default_in_front :
    let source := "\x7b% macro m(a=1, b) %\x7d\x7b% endmacro %\x7d"
    let here : Span := ⟨.initial, .initial, "page"⟩
    let two : NamedArgument Expr := ⟨"b", .literal (.integer 2) here, here, here⟩
    ∃ parsed : Parsed,
      parseTokens ⟨"page", .preserve⟩ (tokenize source "page" .standard).1 none = .ok parsed ∧
      parsed.template.macroTable.1.contains "m" ∧
      BindsByRules parsed.template.macroTable.1 ⟨"m", [], [two], here, here⟩ := by
  intro source here two
  obtain ⟨parsed, hparsed, hm⟩ := Except.exists_of_toOption_map
    (x := parseTokens ⟨"page", .preserve⟩ (tokenize source "page" .standard).1 none)
    (f := fun parsed => parsed.template.macroTable.1.contains "m") (b := true)
    (by decide +kernel)
  exact ⟨parsed, hparsed, hm, parseTokens_bindsByRules hparsed _⟩

end TemplateCompiler
