import TemplateCompiler.Proofs.Nesting
import TemplateCompiler.Proofs.StatementComplete

/-!
# Getting behind a bad tag

Runs of the parser on tokens of which only the tags are known: where they start and end. A run
`Gets` to the tokens that follow if it catches whatever is wrong, and it `Finishes` a tag if it may
also stop in it. What stops in a tag has taken no delimiter, so skipping the rest of the tag leads
to the same tokens.
-/

namespace TemplateCompiler.Parser

open Template (Expr Node)

variable {α β : Type}

/-! ## Runs that get somewhere -/

/-- Between `s` and `s'` only single tags gave reason to complain, and behind `s'` are `rest`. -/
structure State.Reaches (s : State) (rest : List Token) (s' : State) : Prop where
  onward : Scope.any.Onward s s'
  unread : s'.unread = rest
  complaints : ∃ cs, s'.complaints = s.complaints ++ cs ∧ ∀ c ∈ cs, c.problem.isLocal

namespace State.Reaches

variable {s s' s'' : State} {rest rest' : List Token}

theorem refl (ho : s.Ordered) (hs : s.unread = rest) : s.Reaches rest s :=
  ⟨.refl ho, hs, [], (List.append_nil _).symm, List.forall_mem_nil _⟩

theorem trans (h : s.Reaches rest s') (h' : s'.Reaches rest' s'') : s.Reaches rest' s'' := by
  obtain ⟨cs, hcs, hlocal⟩ := h.complaints
  obtain ⟨ds, hds, hlocal'⟩ := h'.complaints
  refine ⟨h.onward.trans h'.onward, h'.unread, cs ++ ds, ?_,
    List.forall_mem_append.mpr ⟨hlocal, hlocal'⟩⟩
  rw [hds, hcs, List.append_assoc]

theorem ordered (h : s.Reaches rest s') : s'.Ordered :=
  h.onward.ordered

end State.Reaches

/-- Nothing in a tag is the reason to stop. -/
def Stop.Silent : Stop → Prop
  | .complaint _ => False
  | .lexical _ | .exhausted | .badNumber _ | .reversed _ | .outOfFuel => True

theorem Stop.Accidental.silent {e : Stop} (h : e.Accidental) : e.Silent := by
  cases e with
  | complaint c => exact h
  | _ => trivial

theorem State.beyond_silent (s : State) : s.beyond.Silent := by
  unfold State.beyond
  split <;> trivial

/-- Ahead is the end of a tag, and behind it `rest`. -/
def State.InTag (s : State) (rest : List Token) : Prop :=
  ∃ us close, s.unread = us ++ close :: rest ∧ (∀ t ∈ us, t.kind.isInner) ∧ close.kind.isCloser

/-- Run from `s`, `p` catches every complaint, and `Q` holds in the end. -/
def Runs (s : State) (p : Parser α) (Q : α → State → Prop) : Prop :=
  Ends p s Q fun e _ => e.Silent

/-- From `s`, `p` reads up to `rest`. -/
def Gets (s : State) (p : Parser α) (rest : List Token) (Q : α → Prop) : Prop :=
  Runs s p fun a s' => s.Reaches rest s' ∧ Q a

/-- From `s`, `p` reads up to `rest`, or stops at something in the last tag in front of it. -/
def Finishes (s : State) (p : Parser α) (rest : List Token) : Prop :=
  Ends p s (fun _ s' => s.Reaches rest s') fun e s' => e.Silent ∨
    ∃ c, e = .complaint c ∧ c.problem.isLocal ∧ s.Reaches s'.unread s' ∧ s'.InTag rest

/-- Also where it stops, `p` leaves the state as it is, and it never complains. -/
def Looks (s : State) (p : Parser α) (Q : α → Prop) : Prop :=
  Ends p s (fun a s' => s' = s ∧ Q a) fun e s' => s' = s ∧ e.Silent

theorem Looks.runs {s : State} {p : Parser α} {Q : α → Prop} (h : Looks s p Q) :
    Runs s p fun a s' => s' = s ∧ Q a :=
  Ends.imp h (fun _ _ h => h) fun _ _ h => h.2

theorem spanFrom_looks (unit : String) (start : Position) (s : State) :
    Looks s (spanFrom unit start) fun _ => True := by
  unfold Looks Ends
  cases hstop : s.lastEnd? with
  | none =>
      rw [spanFrom_eq_error hstop]
      exact ⟨rfl, s.beyond_silent⟩
  | some stop =>
      rw [spanFrom_eq hstop]
      cases Span.between start stop unit with
      | ok span => exact ⟨rfl, trivial⟩
      | error r => exact ⟨rfl, trivial⟩

section

variable {s : State} {p : Parser α} {f : α → Parser β} {P : α → Prop} {Q : β → Prop}
  {middle rest us : List Token}

theorem Runs.pure {b : β} {R : β → State → Prop} (h : R b s) : Runs s (Pure.pure b) R :=
  Ends.pure h

theorem Runs.outOfFuel {R : β → State → Prop} : Runs s (throw .outOfFuel : Parser β) R :=
  Ends.throw trivial

namespace Gets

theorem pure {b : β} (ho : s.Ordered) (hs : s.unread = rest) (h : Q b) :
    Gets s (Pure.pure b) rest Q :=
  Runs.pure ⟨.refl ho hs, h⟩

theorem bind_runs {R : β → State → Prop} (hp : Gets s p middle P)
    (hf : ∀ a s', s.Reaches middle s' → P a → Runs s' (f a) R) : Runs s (p >>= f) R :=
  Ends.bind hp fun a s' ⟨hr, ha⟩ => hf a s' hr ha

theorem bind (hp : Gets s p middle P)
    (hf : ∀ a s', s.Reaches middle s' → P a → Gets s' (f a) rest Q) : Gets s (p >>= f) rest Q :=
  Ends.bind hp fun a s' ⟨hr, ha⟩ => (hf a s' hr ha).imp
    (fun _ _ ⟨hr', hb⟩ => ⟨hr.trans hr', hb⟩) fun _ _ he => he

theorem bind_finishes (hp : Gets s p middle P)
    (hf : ∀ a s', s.Reaches middle s' → P a → Finishes s' (f a) rest) :
    Finishes s (p >>= f) rest :=
  Ends.bind (Ends.imp hp (fun _ _ h => h) fun _ _ he => .inl he) fun a s' ⟨hr, ha⟩ =>
    (hf a s' hr ha).imp (fun _ _ hr' => hr.trans hr') fun _ _ he => he.imp_right
      fun ⟨c, hc, hlocal, hr', h⟩ => ⟨c, hc, hlocal, hr.trans hr', h⟩

/-- What is read where nothing is wrong with the tokens. -/
theorem of_yields {R S : α → State → Prop} (hy : Yields s p R) (hm : Moves .any s p S)
    (hR : ∀ a s', R a s' → s.Past us s' ∧ P a) (ho : s.Ordered) (hs : s.unread = us ++ rest) :
    Gets s p rest P := by
  refine (Ends.and hy (hm ho)).imp ?_ fun e s' ⟨he, _⟩ => he.silent
  rintro a s' ⟨hr, honward, -⟩
  obtain ⟨hpast, ha⟩ := hR a s' hr
  refine ⟨⟨honward, hpast.unread_eq hs, [], ?_, List.forall_mem_nil _⟩, ha⟩
  rw [hpast.complaints, List.append_nil]

theorem spanFrom {unit : String} {start : Position} {f : Span → Parser β}
    (h : ∀ span, Gets s (f span) rest Q) : Gets s (spanFrom unit start >>= f) rest Q := by
  refine Ends.bind (spanFrom_looks unit start s).runs ?_
  rintro span _ ⟨rfl, -⟩
  exact h span

end Gets

/-- Recovering in a tag leads behind it. -/
theorem recover_closes (c : Complaint) (ho : s.Ordered) (hs : s.InTag rest) :
    Ends (recover c) s (fun _ s' => Scope.any.Onward s s' ∧ s'.unread = rest ∧
      s'.complaints = s.complaints ++ [c]) fun _ _ => False := by
  obtain ⟨us, close, hs, hinner, hclose⟩ := hs
  have hskip := @skipTag_closes us rest close { s with complaints := s.complaints ++ [c] } hs hinner
    hclose
  have hexact : Ends (recover c) s (fun _ s' => s'.unread = rest ∧
      s'.complaints = s.complaints ++ [c]) fun _ _ => False := Ends.step rfl hskip
  exact (hexact.and (recover_moves c s ho)).imp (fun _ _ ⟨h, honward, _⟩ => ⟨honward, h⟩)
    fun _ _ h => h.1

namespace Finishes

theorem bind (hp : Finishes s p rest)
    (hf : ∀ a s', s.Reaches rest s' → Gets s' (f a) rest Q) : Finishes s (p >>= f) rest :=
  Ends.bind hp fun a s' hr => (hf a s' hr).imp (fun _ _ ⟨hr', _⟩ => hr.trans hr')
    fun _ _ he => .inl he

theorem spanFrom {unit : String} {start : Position} {f : Span → Parser β}
    (h : ∀ span, Finishes s (f span) rest) : Finishes s (spanFrom unit start >>= f) rest := by
  refine Ends.bind (Ends.imp (spanFrom_looks unit start s) (fun _ _ h => h)
    fun _ _ he => .inl he.2) ?_
  rintro span _ ⟨rfl, -⟩
  exact h span

theorem outOfFuel : Finishes s (throw .outOfFuel : Parser β) rest :=
  Ends.throw (.inl trivial)

/-- A tag that is wrong is skipped, which leads behind it. -/
theorem recovering (hp : Finishes s p rest) : Gets s (recovering p) rest fun _ => True := by
  refine Ends.tryCatch (Ends.map hp fun a s' hr => ⟨hr, trivial⟩) ?_
  intro e s' he
  cases e with
  | complaint c =>
      rcases he with he | ⟨_, ⟨⟩, hlocal, hr, htag⟩
      · exact he.elim
      obtain ⟨cs, hcs, hcslocal⟩ := hr.complaints
      refine Ends.bind (P := fun _ s'' => s.Reaches rest s'') ?_
        fun _ _ hr => Ends.pure ⟨hr, trivial⟩
      refine (recover_closes c hr.ordered htag).imp ?_ fun _ _ => False.elim
      rintro - s'' ⟨honward, hunread, hnoted⟩
      refine ⟨hr.onward.trans honward, hunread, cs ++ [c], ?_, ?_⟩
      · rw [hnoted, hcs, List.append_assoc]
      · exact List.forall_mem_append.mpr ⟨hcslocal, List.forall_mem_singleton.mpr hlocal⟩
  | _ => exact Ends.throw trivial

end Finishes

end

/-! ## Single tags -/

section

variable {s : State} {p : Parser α} {rest : List Token} {g : Tag}

/-- Something that is complained about in a tag. -/
theorem Finishes.complain {problem : SyntaxProblem} {span : Span} (hlocal : problem.isLocal)
    (ho : s.Ordered) (hs : s.InTag rest) : Finishes s (complain problem span : Parser β) rest :=
  Ends.throw (.inr ⟨_, rfl, hlocal, .refl ho rfl, hs⟩)

theorem State.Ordered.reaches_consume {t : Token} {ahead : List Token} (ho : s.Ordered)
    (hs : s.unread = t :: ahead) (ht : t.kind ≠ .eof) :
    s.Reaches ahead (s.consume t ahead) ∧ s.Took t (s.consume t ahead) := by
  obtain ⟨hordered, htook⟩ := ho.consume hs ht
  exact ⟨⟨htook.onward hordered rfl rfl rfl, rfl, [], (List.append_nil _).symm,
    List.forall_mem_nil _⟩, htook⟩

theorem Finishes.advance {t : Token} {ahead : List Token} {f : Token → Parser β} (ho : s.Ordered)
    (hs : s.unread = t :: ahead) (ht : t.kind ≠ .eof)
    (h : ∀ s', s.Reaches ahead s' → s.Took t s' → Finishes s' (f t) rest) :
    Finishes s (advance >>= f) rest := by
  obtain ⟨hr, htook⟩ := ho.reaches_consume hs ht
  exact Ends.step (advance_eq hs ht) ((h _ hr htook).imp (fun _ _ hr' => hr.trans hr')
    fun _ _ he => he.imp_right fun ⟨c, hc, hlocal, hr', h⟩ => ⟨c, hc, hlocal, hr.trans hr', h⟩)

theorem Gets.advance {t : Token} {ahead : List Token} {f : Token → Parser β} {Q : β → Prop}
    (ho : s.Ordered) (hs : s.unread = t :: ahead) (ht : t.kind ≠ .eof)
    (h : ∀ s', s.Reaches ahead s' → Gets s' (f t) rest Q) : Gets s (advance >>= f) rest Q := by
  obtain ⟨hr, -⟩ := ho.reaches_consume hs ht
  exact Ends.step (advance_eq hs ht) ((h _ hr).imp (fun _ _ ⟨hr', hb⟩ => ⟨hr.trans hr', hb⟩)
    fun _ _ he => he)

theorem State.InTag.of_closed (hg : g.Closed) (hs : s.unread = g.inside ++ g.closing :: rest) :
    s.InTag rest :=
  ⟨_, _, hs, hg.inside, hg.closing⟩

/-- What stops while a tag is read has taken no delimiter, so the tag's own is still ahead. -/
theorem Closes.finishes {P : α → State → Prop} (hp : Closes s p P) (ho : s.Ordered)
    (hs : s.InTag rest) : Finishes s p rest := by
  obtain ⟨us, close, hs, hinner, hclose⟩ := hs
  have houter : ¬ close.kind.isInner := by simp [isInner_of_isCloser hclose]
  refine (hp ho).imp ?_ ?_
  · rintro a s' ⟨⟨honward, ⟨vs, d, hvs, hinner', hd⟩, hcomplaints⟩, -⟩
    obtain ⟨-, -, hrest⟩ := cut_unique (hs.symm.trans hvs) hinner hinner' houter
      (by simp [isInner_of_isCloser hd])
    obtain ⟨cs, hcs, hinTag⟩ := hcomplaints
    exact ⟨honward, hrest.symm, cs, hcs, fun c hc => SyntaxProblem.isLocal_of_isInTag (hinTag c hc)⟩
  · rintro e s' ⟨honward, he⟩
    cases e with
    | complaint c =>
        obtain ⟨cs, hcs, hinTag⟩ := honward.complaints
        refine .inr ⟨c, rfl, SyntaxProblem.isLocal_of_isInTag he,
          ⟨honward.any, rfl, cs, hcs, fun d hd => SyntaxProblem.isLocal_of_isInTag (hinTag d hd)⟩,
          ?_⟩
        obtain ⟨vs, hvs, hinner'⟩ := honward.ahead
        rcases List.append_eq_append_iff.mp (hs.symm.trans hvs) with ⟨ws, hus, hws⟩ | ⟨ws, hus, hws⟩
        · cases ws with
          | nil => exact ⟨[], close, hws.symm, List.forall_mem_nil _, hclose⟩
          | cons d ws =>
              obtain ⟨rfl, -⟩ := List.cons.inj hws
              exact absurd (hinner' _ (by simp [hus])) houter
        · exact ⟨ws, close, hws, fun t ht => hinner t (by simp [hus, ht]), hclose⟩
    | _ => exact .inl trivial

theorem Closes.header_gets {P : α → State → Prop} (hp : Closes s p P) (ho : s.Ordered)
    (hg : g.Closed) (hs : s.unread = g.inside ++ g.closing :: rest) :
    Gets s (recovering p) rest fun _ => True :=
  (hp.finishes ho (.of_closed hg hs)).recovering

theorem endTag_finishes (hg : g.Closed) (ho : s.Ordered) (hs : s.unread = g.tokens ++ rest)
    (word : String) : Finishes s (endTag word) rest := by
  rw [g.tokens_append] at hs
  refine Finishes.advance ho hs hg.opening_ne_eof fun s' hr _ => ?_
  exact (endTag_closes word s').finishes hr.ordered (.of_closed hg hr.unread)

/-- The delimiter that opens a tag shows whether the tag ends the current list of nodes. -/
theorem closingWord?_tag (hg : g.Closed) (hs : s.unread = g.tokens ++ rest)
    (closers : List String) : closingWord? closers g.opening s =
      .ok (g.word?.filter fun word => closers.contains word) s := by
  rw [g.tokens_append] at hs
  by_cases hopen : g.opening.kind = .blockStart
  · have hne := hg.opening_ne_eof
    unfold closingWord? Tag.word?
    rw [if_pos hopen, if_pos hopen]
    cases hinside : g.inside with
    | nil =>
        have hclosing : g.closing.kind ≠ .keyword := by
          intro hkind
          have hcloser := hg.closing
          rw [hkind] at hcloser
          cases hcloser
        rw [hinside] at hs
        rw [bind_apply_of_ok (peekSecond_eq hs hne)]
        simp [hclosing, Pure.pure, EStateM.pure]
    | cons t more =>
        rw [hinside] at hs
        rw [bind_apply_of_ok (peekSecond_eq hs hne)]
        by_cases ht : t.kind = .keyword <;> simp [ht, Pure.pure, EStateM.pure, Option.filter]
  · unfold Tag.word?
    rw [closingWord?_eq_none hopen, if_neg hopen]
    rfl

end

end TemplateCompiler.Parser
