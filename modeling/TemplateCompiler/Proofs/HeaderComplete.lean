import TemplateCompiler.Proofs.Outputs
import TemplateCompiler.Proofs.StatementGrammar

/-!
# What the grammar allows in a tag is read

What needs no other tag: text, comments, the headers of blocks and the statements without a body. On
the tokens of each the parser yields what they stand for, up to spans, and has nothing to complain
about. Text is kept as it is where no marker and no default asks for less.
-/

namespace TemplateCompiler

namespace Whitespace

theorem trimLeft_preserve (text : List Char) : trimLeft .preserve text = text :=
  List.takeWhile_append_dropWhile

theorem trimRight_preserve (text : List Char) : trimRight .preserve text = text := by
  have h := List.takeWhile_append_dropWhile (p := Text.isBlank) (l := text.reverse)
  show (text.reverse.dropWhile Text.isBlank).reverse ++
    (text.reverse.takeWhile Text.isBlank).reverse = text
  rw [← List.reverse_append, h, List.reverse_reverse]

end Whitespace

namespace Parser

open Template (Expr Node bareExprs bareNamed bareNodes bareArms)

/-! ## Text -/

theorem Setting.effective_preserve {setting : Setting} (hset : setting.whitespace = .preserve)
    {o : Option String} (ho : ∀ marker, o = some marker → marker = "") :
    setting.effective o = .preserve := by
  cases o with
  | none => rfl
  | some marker =>
      obtain rfl := ho marker rfl
      exact hset

/-- Text is read whatever follows it. If no tag around it asks for less, it is kept as it is. -/
theorem text_yields (setting : Setting) {s : State} {t u : Token} {rest : List Token}
    (hs : s.unread = t :: u :: rest) (ht : t.kind = .text) :
    Yields s (text setting) fun o s' => s.Past [t] s' ∧
      (setting.whitespace = .preserve → s.Unmarked → (u.kind.isOpener → u.value = "") →
        t.value ≠ "" → o = some (.text t.value t.span)) := by
  refine Yields.advance hs (by simp [ht]) fun s₁ hp => ?_
  refine Yields.peek (hp.rest_eq hs) (Yields.get ?_)
  refine Yields.step rfl (Yields.pure ⟨⟨hp.ahead, hp.fault, hp.complaints, nofun⟩, ?_⟩)
  intro hset hunmarked hu hvalue
  have hleft : setting.effective s₁.leftMarker = .preserve := by
    refine Setting.effective_preserve hset (hp.unmarked hunmarked ?_)
    simp [ht, TokenKind.isCloser]
  have hright : setting.effective (if u.kind.isOpener then some u.value else none) = .preserve := by
    refine Setting.effective_preserve hset fun marker hmarker => ?_
    split at hmarker
    · next hopen => exact (Option.some.inj hmarker) ▸ hu hopen
    · cases hmarker
  have hne : ¬ t.value.toList.isEmpty := by simpa using hvalue
  rw [hleft, hright, Whitespace.trimLeft_preserve, Whitespace.trimRight_preserve, if_neg hne,
    String.ofList_toList]

theorem comment_yields {s : State} {opening body close : Token} {rest : List Token}
    (hs : s.unread = opening :: body :: close :: rest) (hopen : opening.kind = .commentStart)
    (hbody : body.kind = .comment) (hclose : close.kind = .commentEnd) :
    Yields s comment fun _ s' => s.Past [opening, body, close] s' := by
  refine Yields.advance hs (by simp [hopen]) fun s₁ hp₁ => ?_
  have hs₁ := hp₁.rest_eq hs
  refine Yields.expect hs₁ hbody (by decide) fun s₂ hp₂ => ?_
  have hs₂ := hp₂.rest_eq hs₁
  exact Yields.expect hs₂ hclose (by decide) fun s₃ hp₃ =>
    Yields.pure (hp₁.trans (hp₂.trans hp₃))

/-! ## Headers -/

section

variable {s : State} {rest us : List Token} {w close : Token}

theorem expectBlockEnd_yields (hs : s.unread = close :: rest) (hclose : close.kind = .blockEnd) :
    Yields s expectBlockEnd fun _ s' => s.Past [close] s' :=
  Yields.of_bind (Yields.expect hs hclose (by decide) fun _ hp => Yields.pure hp)

theorem condition_yields {c : Expr} (hs : s.unread = w :: (us ++ close :: rest))
    (hw : w.kind = .keyword) (hc : Denotes us (.expr .disjunction c))
    (hclose : close.kind = .blockEnd) :
    Yields s condition fun e s' => s.Past (w :: (us ++ [close])) s' ∧ e.bare = c := by
  refine Yields.advance hs (by simp [hw]) fun s₁ hp₁ => ?_
  have hs₁ := hp₁.rest_eq hs
  refine Yields.bind (expression_yields hc hs₁ (by simp [hclose])) fun e s₂ ⟨hp₂, he⟩ => ?_
  have hs₂ := hp₂.unread_eq hs₁
  exact Yields.bind (expectBlockEnd_yields hs₂ hclose) fun _ s₃ hp₃ =>
    Yields.pure ⟨hp₁.trans (hp₂.trans hp₃), he⟩

/-- The names behind the first one, which was just read. -/
theorem targetsFrom_yields {ts : List Token} {names : List String} {into : Token}
    (h : Names ts names) (hinto : into.kind = .keyword) :
    ∀ (t : Token) (us : List Token), ts = t :: us → ∀ (fuel : Nat) (read : List String) (s : State)
      (rest : List Token), s.unread = us ++ into :: rest →
      Yields s (targetsFrom fuel (read ++ [t.value])) fun targets s' =>
        s.Past us s' ∧ targets = read ++ names := by
  induction h with
  | last ht =>
      rintro t us heq fuel read s rest hs
      obtain ⟨rfl, rfl⟩ := List.cons.inj heq
      cases fuel with
      | zero => exact Yields.outOfFuel
      | succ fuel =>
          refine Yields.peek hs ?_
          rw [if_neg (by simp [hinto])]
          exact Yields.pure ⟨.refl s, rfl⟩
  | @more t comma ts names ht hcomma hts ih =>
      rintro _ us heq fuel read s rest hs
      obtain ⟨rfl, rfl⟩ := List.cons.inj heq
      obtain ⟨u, vs, rfl, hu⟩ := hts.head
      cases fuel with
      | zero => exact Yields.outOfFuel
      | succ fuel =>
          refine Yields.peek hs ?_
          rw [if_pos hcomma]
          refine Yields.advance hs (by simp [hcomma]) fun s₁ hp₁ => ?_
          have hs₁ := hp₁.rest_eq hs
          refine Yields.expect hs₁ hu (by decide) fun s₂ hp₂ => ?_
          refine (ih u vs rfl fuel (read ++ [t.value]) s₂ rest (hp₂.rest_eq hs₁)).imp ?_
          rintro targets s₃ ⟨hp₃, rfl⟩
          exact ⟨hp₁.trans (hp₂.trans hp₃), by simp⟩

theorem loopHeader_yields {ts vs : List Token} {names : List String} {into : Token} {e : Expr}
    (hs : s.unread = w :: (ts ++ into :: (vs ++ close :: rest))) (hw : w.kind = .keyword)
    (ht : Names ts names) (hinto : into.lexeme = (.keyword, "in"))
    (he : Denotes vs (.expr .disjunction e)) (hclose : close.kind = .blockEnd) :
    Yields s loopHeader fun r s' => s.Past (w :: (ts ++ into :: (vs ++ [close]))) s' ∧
      r.1 = names ∧ r.2.bare = e := by
  have hkind : into.kind = .keyword := congrArg Prod.fst hinto
  obtain ⟨t, us, rfl, htkind⟩ := ht.head
  refine Yields.advance hs (by simp [hw]) fun s₁ hp₁ => ?_
  have hs₁ := hp₁.rest_eq hs
  refine Yields.expect hs₁ htkind (by decide) fun s₂ hp₂ => Yields.get ?_
  have hs₂ := hp₂.rest_eq hs₁
  refine Yields.bind (targetsFrom_yields ht hkind t us rfl _ [] s₂ _ hs₂) ?_
  rintro targets s₃ ⟨hp₃, rfl⟩
  have hs₃ := hp₃.unread_eq hs₂
  refine Yields.expectKeyword hs₃ (Token.isKeyword_iff.mpr hinto) fun s₄ hp₄ => ?_
  have hs₄ := hp₄.rest_eq hs₃
  refine Yields.bind (expression_yields he hs₄ (by simp [hclose])) fun e' s₅ ⟨hp₅, he'⟩ => ?_
  have hs₅ := hp₅.unread_eq hs₄
  refine Yields.bind (expectBlockEnd_yields hs₅ hclose) fun _ s₆ hp₆ => Yields.pure ⟨?_, rfl, he'⟩
  exact hp₁.trans (hp₂.trans (hp₃.trans (hp₄.trans (hp₅.trans hp₆))))

/-- The default of a parameter, behind its name. -/
theorem parameterDefault_yields {p : Parameter Expr} {ts : List Token} (h : DeclaresOne ts p) :
    ∃ t us default, ts = t :: us ∧ t.kind = .identifier ∧ p = ⟨t.value, default, .blank⟩ ∧
      ∀ (s : State) (next : Token) (rest : List Token), s.unread = us ++ next :: rest →
        next.kind = .comma ∨ next.kind = .rightParen →
        Yields s parameterDefault fun o s' => s.Past us s' ∧ o.map Expr.bare = default := by
  cases h with
  | @required t ht =>
      refine ⟨t, [], none, rfl, ht, rfl, fun s next rest hs hnext => ?_⟩
      refine Yields.peek hs ?_
      rw [if_neg (by rcases hnext with h | h <;> simp [h])]
      exact Yields.pure ⟨.refl s, rfl⟩
  | @optional t equals us e ht hequals he =>
      refine ⟨t, equals :: us, some e, rfl, ht, rfl, fun s next rest hs hnext => ?_⟩
      refine Yields.peek hs ?_
      rw [if_pos hequals]
      refine Yields.advance hs (by simp [hequals]) fun s₁ hp₁ => ?_
      have hs₁ := hp₁.rest_eq hs
      obtain ⟨u, vs, hu⟩ := he.heads
      have hpeek : s₁.unread = u :: (vs ++ next :: rest) := by rw [hs₁, hu.eq]; rfl
      refine Yields.peek hpeek ?_
      rw [if_pos hu.starts]
      have hclosing : next.kind ∉ [.keyword, .operator, .dot, .leftBracket, .leftParen, .pipe] := by
        rcases hnext with h | h <;> simp [h]
      refine Yields.bind (expression_yields he hs₁ hclosing) fun e' s₂ ⟨hp₂, he'⟩ => ?_
      exact Yields.pure ⟨hp₁.trans hp₂, congrArg some he'⟩

/-- A parameter behind those already read, with what stands behind it. -/
theorem parameter_yields {p : Parameter Expr} {ts : List Token} {next : Token} {unit name : String}
    {read : List (Parameter Expr)} {Q : List (Parameter Expr) → State → Prop}
    (h : DeclaresOne ts p) (hs : s.unread = ts ++ next :: rest)
    (hnext : next.kind = .comma ∨ next.kind = .rightParen) (hnew : p.name ∉ read.map (·.name))
    (fuel : Nat)
    (hf : ∀ params s', s.Past ts s' → s'.unread = next :: rest →
      params.map Parameter.bare = read.map Parameter.bare ++ [p] →
      Yields s' (parametersBehind unit name fuel params) Q) :
    Yields s (parametersFrom unit name (fuel + 1) read) Q := by
  obtain ⟨t, us, default, rfl, ht, rfl, hdefault⟩ := parameterDefault_yields h
  refine Yields.peek hs ?_
  simp only [ht]
  refine Yields.advance hs (by simp [ht]) fun s₁ hp₁ => ?_
  have hs₁ := hp₁.rest_eq hs
  refine Yields.bind (hdefault s₁ next rest hs₁ hnext) fun o s₂ ⟨hp₂, ho⟩ => ?_
  have hs₂ := hp₂.unread_eq hs₁
  rw [if_neg (by simpa using hnew)]
  refine Yields.spanFrom (by simp [hs₂]) fun span => ?_
  rw [pure_bind]
  refine hf _ s₂ (hp₁.trans hp₂) hs₂ ?_
  rw [List.map_append, ← ho]
  rfl

/-- The parameters behind those already read, whose names do not occur again. -/
theorem parametersFrom_yields {ts : List Token} {ps : List (Parameter Expr)} (h : Declares ts ps)
    (hclose : close.kind = .rightParen) (unit name : String) :
    ∀ (fuel : Nat) (read : List (Parameter Expr)) (s : State) (rest : List Token),
      s.unread = ts ++ close :: rest → (∀ p ∈ ps, p.name ∉ read.map (·.name)) →
      Yields s (parametersFrom unit name fuel read) fun params s' =>
        s.Past (ts ++ [close]) s' ∧ params.map Parameter.bare = read.map Parameter.bare ++ ps := by
  induction h with
  | none =>
      intro fuel read s rest hs _
      cases fuel with
      | zero => exact Yields.outOfFuel
      | succ fuel =>
          refine Yields.peek hs ?_
          simp only [hclose]
          exact Yields.advance hs (by simp [hclose]) fun s₁ hp₁ => Yields.pure ⟨hp₁, by simp⟩
  | last hp =>
      intro fuel read s rest hs hnew
      cases fuel with
      | zero => exact Yields.outOfFuel
      | succ fuel =>
          refine parameter_yields hp hs (.inr hclose) (hnew _ List.mem_cons_self) fuel ?_
          intro params s₁ hp₁ hs₁ hparams
          refine Yields.peek hs₁ ?_
          simp only [hclose]
          exact Yields.advance hs₁ (by simp [hclose]) fun s₂ hp₂ =>
            Yields.pure ⟨hp₁.trans hp₂, hparams⟩
  | @more ts us comma p ps hp hcomma _ hdistinct ih =>
      intro fuel read s rest hs hnew
      obtain ⟨hp_new, hps_new⟩ := List.forall_mem_cons.mp hnew
      rw [List.append_assoc] at hs
      cases fuel with
      | zero => exact Yields.outOfFuel
      | succ fuel =>
          refine parameter_yields hp hs (.inl hcomma) hp_new fuel ?_
          intro params s₁ hp₁ hs₁ hparams
          refine Yields.peek hs₁ ?_
          simp only [hcomma]
          refine Yields.advance hs₁ (by simp [hcomma]) fun s₂ hp₂ => ?_
          have hnames := congrArg (List.map (·.name)) hparams
          simp only [List.map_map, List.map_append, Function.comp_def, Parameter.bare,
            List.map_cons, List.map_nil] at hnames
          refine (ih fuel params s₂ rest (hp₂.rest_eq hs₁) ?_).imp ?_
          · intro q hq
            rw [hnames, List.mem_append, List.mem_singleton]
            rintro (hread | heq)
            · exact hps_new q hq hread
            · exact hdistinct (List.mem_map.mpr ⟨q, hq, heq⟩)
          · rintro params' s₃ ⟨hp₃, hparams'⟩
            refine ⟨?_, by rw [hparams', hparams]; simp⟩
            simpa using hp₁.trans (hp₂.trans hp₃)

theorem definitionHeader_yields (setting : Setting) {ts : List Token}
    {name opening closing : Token} {ps : List (Parameter Expr)}
    (hs : s.unread = w :: name :: opening :: (ts ++ closing :: close :: rest))
    (hw : w.kind = .keyword) (hname : name.kind = .identifier) (hopen : opening.kind = .leftParen)
    (hps : Declares ts ps) (hclosing : closing.kind = .rightParen)
    (hclose : close.kind = .blockEnd) :
    Yields s (definitionHeader setting) fun r s' =>
      s.Past (w :: name :: opening :: (ts ++ [closing, close])) s' ∧ r.1.value = name.value ∧
        r.2.map Parameter.bare = ps := by
  refine Yields.advance hs (by simp [hw]) fun s₁ hp₁ => ?_
  have hs₁ := hp₁.rest_eq hs
  refine Yields.expect hs₁ hname (by decide) fun s₂ hp₂ => ?_
  have hs₂ := hp₂.rest_eq hs₁
  refine Yields.expect hs₂ hopen (by decide) fun s₃ hp₃ => Yields.get ?_
  have hs₃ := hp₃.rest_eq hs₂
  refine Yields.bind (parametersFrom_yields hps hclosing _ _ _ [] s₃ _ hs₃ (by simp)) ?_
  rintro params s₄ ⟨hp₄, hparams⟩
  have hs₄ : s₄.unread = close :: rest := hp₄.unread_eq (by rw [hs₃]; simp)
  refine Yields.bind (expectBlockEnd_yields hs₄ hclose) fun _ s₅ hp₅ =>
    Yields.pure ⟨?_, rfl, hparams⟩
  simpa using hp₁.trans (hp₂.trans (hp₃.trans (hp₄.trans hp₅)))

theorem callHeader_yields {ts : List Token} {name opening closing : Token} {args : List Expr}
    {named : List (NamedArgument Expr)}
    (hs : s.unread = w :: name :: opening :: (ts ++ closing :: close :: rest))
    (hw : w.kind = .keyword) (hname : name.kind = .identifier) (hopen : opening.kind = .leftParen)
    (ha : Denotes ts (.arguments args named)) (hclosing : closing.kind = .rightParen)
    (hclose : close.kind = .blockEnd) :
    Yields s callHeader fun c s' => s.Past (w :: name :: opening :: (ts ++ [closing, close])) s' ∧
      c.bare = ⟨name.value, args, named, .blank, .blank⟩ := by
  refine Yields.advance hs (by simp [hw]) fun s₁ hp₁ => ?_
  have hs₁ := hp₁.rest_eq hs
  refine Yields.expect hs₁ hname (by decide) fun s₂ hp₂ => ?_
  have hs₂ := hp₂.rest_eq hs₁
  refine Yields.expect hs₂ hopen (by decide) fun s₃ hp₃ => ?_
  have hs₃ := hp₃.rest_eq hs₂
  refine Yields.bind (arguments_yields ha hs₃ hclosing) fun a s₄ ⟨hp₄, hargs, hnamed⟩ => ?_
  have hs₄ : s₄.unread = close :: rest := hp₄.unread_eq (by rw [hs₃]; simp)
  refine Yields.join fun argsSpan => Yields.join fun span => ?_
  refine Yields.bind (expectBlockEnd_yields hs₄ hclose) fun _ s₅ hp₅ => Yields.pure ⟨?_, ?_⟩
  · simpa using hp₁.trans (hp₂.trans (hp₃.trans (hp₄.trans hp₅)))
  · rw [MacroCall.bare, hargs, hnamed]

theorem inclusion_yields (setting : Setting) {opening path : Token}
    (hs : s.unread = w :: path :: close :: rest) (hw : w.kind = .keyword)
    (hpath : path.kind = .string) (hclose : close.kind = .blockEnd) (hrest : rest ≠ []) :
    Yields s (inclusion setting opening) fun n s' => s.Past [w, path, close] s' ∧
      n.bare = .inclusion path.value .blank := by
  refine Yields.advance hs (by simp [hw]) fun s₁ hp₁ => ?_
  have hs₁ := hp₁.rest_eq hs
  refine Yields.expect hs₁ hpath (by decide) fun s₂ hp₂ => ?_
  have hs₂ := hp₂.rest_eq hs₁
  refine Yields.bind (expectBlockEnd_yields hs₂ hclose) fun _ s₃ hp₃ => ?_
  refine Yields.spanFrom (by rwa [hp₃.rest_eq hs₂]) fun span => Yields.pure ⟨?_, rfl⟩
  exact hp₁.trans (hp₂.trans hp₃)

theorem assignment_yields (setting : Setting) {opening name equals : Token} {e : Expr}
    (hs : s.unread = w :: name :: equals :: (us ++ close :: rest)) (hw : w.kind = .keyword)
    (hname : name.kind = .identifier) (hequals : equals.kind = .equals)
    (he : Denotes us (.expr .disjunction e)) (hclose : close.kind = .blockEnd) (hrest : rest ≠ []) :
    Yields s (assignment setting opening) fun n s' =>
      s.Past (w :: name :: equals :: (us ++ [close])) s' ∧
        n.bare = .assignment name.value e .blank := by
  refine Yields.advance hs (by simp [hw]) fun s₁ hp₁ => ?_
  have hs₁ := hp₁.rest_eq hs
  refine Yields.expect hs₁ hname (by decide) fun s₂ hp₂ => ?_
  have hs₂ := hp₂.rest_eq hs₁
  refine Yields.expect hs₂ hequals (by decide) fun s₃ hp₃ => ?_
  have hs₃ := hp₃.rest_eq hs₂
  refine Yields.bind (expression_yields he hs₃ (by simp [hclose])) fun e' s₄ ⟨hp₄, he'⟩ => ?_
  have hs₄ := hp₄.unread_eq hs₃
  refine Yields.bind (expectBlockEnd_yields hs₄ hclose) fun _ s₅ hp₅ => ?_
  refine Yields.spanFrom (by rwa [hp₅.rest_eq hs₄]) fun span => Yields.pure ⟨?_, ?_⟩
  · exact hp₁.trans (hp₂.trans (hp₃.trans (hp₄.trans hp₅)))
  · rw [Node.bare, he']

end

end Parser

end TemplateCompiler
