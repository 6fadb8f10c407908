import TemplateCompiler.Proofs.Effects
import TemplateCompiler.Template.Parser.Statement

/-!
# The name of a unit is only a name

A source read under another name gives the same tokens, the same template and the same complaints,
with the other name in their spans. The name goes into spans and comes out of them again, and no
decision is made on it.

`inUnit` puts a name into everything that has spans. `Mirrors` relates two runs of the parser: the
second, on renamed tokens, gives what the first gives, renamed. Each rule follows one way to build a
parser, so that the proof about a function reads along its definition.
-/

namespace TemplateCompiler

open Template (Expr Node)

/-! ## Other names -/

def Span.inUnit (unit : String) (s : Span) : Span :=
  { s with unit }

def Token.inUnit (unit : String) (t : Token) : Token :=
  { t with span := t.span.inUnit unit }

def Located.inUnit {π : Type} (unit : String) (p : Located π) : Located π :=
  { p with span := p.span.inUnit unit }

section

variable (unit : String) (t : Token)

@[simp]
theorem Token.kind_inUnit : (t.inUnit unit).kind = t.kind := rfl

@[simp]
theorem Token.value_inUnit : (t.inUnit unit).value = t.value := rfl

@[simp]
theorem Token.raw_inUnit : (t.inUnit unit).raw = t.raw := rfl

@[simp]
theorem Token.span_inUnit : (t.inUnit unit).span = t.span.inUnit unit := rfl

@[simp]
theorem Token.isKeyword_inUnit (word : String) :
    (t.inUnit unit).isKeyword word = t.isKeyword word := rfl

end

namespace Template

mutual

def Expr.inUnit (unit : String) : Expr → Expr
  | .literal value s => .literal value (s.inUnit unit)
  | .var name s => .var name (s.inUnit unit)
  | .binary op left right s => .binary op (left.inUnit unit) (right.inUnit unit) (s.inUnit unit)
  | .unary op operand s => .unary op (operand.inUnit unit) (s.inUnit unit)
  | .filter name value args s =>
    .filter name (value.inUnit unit) (exprsInUnit unit args) (s.inUnit unit)
  | .index value position s => .index (value.inUnit unit) (position.inUnit unit) (s.inUnit unit)
  | .attribute value name s => .attribute (value.inUnit unit) name (s.inUnit unit)
  | .call func args named argsSpan s =>
    .call (func.inUnit unit) (exprsInUnit unit args) (namedInUnit unit named)
      (argsSpan.inUnit unit) (s.inUnit unit)

def exprsInUnit (unit : String) : List Expr → List Expr
  | [] => []
  | e :: es => e.inUnit unit :: exprsInUnit unit es

def namedInUnit (unit : String) : List (NamedArgument Expr) → List (NamedArgument Expr)
  | [] => []
  | a :: as =>
    ⟨a.name, a.value.inUnit unit, a.nameSpan.inUnit unit, a.span.inUnit unit⟩ ::
      namedInUnit unit as

end

end Template

def NamedArgument.inUnit (unit : String) (a : NamedArgument Expr) : NamedArgument Expr :=
  ⟨a.name, a.value.inUnit unit, a.nameSpan.inUnit unit, a.span.inUnit unit⟩

def Parameter.inUnit (unit : String) (p : Parameter Expr) : Parameter Expr :=
  ⟨p.name, p.default.map (Expr.inUnit unit), p.span.inUnit unit⟩

def MacroCall.inUnit (unit : String) (c : MacroCall) : MacroCall :=
  ⟨c.name, c.args.map (Expr.inUnit unit), c.named.map (NamedArgument.inUnit unit),
    c.argsSpan.inUnit unit, c.span.inUnit unit⟩

namespace Template

mutual

def Node.inUnit (unit : String) : Node → Node
  | .text value s => .text value (s.inUnit unit)
  | .output e s => .output (e.inUnit unit) (s.inUnit unit)
  | .branch arms s => .branch (armsInUnit unit arms) (s.inUnit unit)
  | .loop targets iterable body otherwise s =>
    .loop targets (iterable.inUnit unit) (nodesInUnit unit body) (nodesInUnit unit otherwise)
      (s.inUnit unit)
  | .definition d =>
    .definition ⟨d.name, d.params.map (Parameter.inUnit unit), nodesInUnit unit d.body,
      d.nameSpan.inUnit unit, d.span.inUnit unit⟩
  | .callBlock call body s =>
    .callBlock (call.inUnit unit) (nodesInUnit unit body) (s.inUnit unit)
  | .inclusion path s => .inclusion path (s.inUnit unit)
  | .assignment name value s => .assignment name (value.inUnit unit) (s.inUnit unit)

def nodesInUnit (unit : String) : List Node → List Node
  | [] => []
  | n :: ns => n.inUnit unit :: nodesInUnit unit ns

def armsInUnit (unit : String) : List (Arm Node) → List (Arm Node)
  | [] => []
  | a :: as =>
    ⟨a.condition.map (Expr.inUnit unit), nodesInUnit unit a.body, a.span.inUnit unit⟩ ::
      armsInUnit unit as

end

end Template

def Arm.inUnit (unit : String) (a : Arm Node) : Arm Node :=
  ⟨a.condition.map (Expr.inUnit unit), a.body.map (Node.inUnit unit), a.span.inUnit unit⟩

def Template.inUnit (unit : String) (t : Template) : Template :=
  ⟨t.body.map (Node.inUnit unit), t.span.inUnit unit⟩

def Parsed.inUnit (unit : String) (p : Parsed) : Parsed :=
  ⟨p.template.inUnit unit, p.complaints.map (Located.inUnit unit)⟩

namespace Template

variable {unit : String}

@[simp]
theorem exprsInUnit_eq_map (es : List Expr) : exprsInUnit unit es = es.map (Expr.inUnit unit) := by
  induction es with
  | nil => rfl
  | cons e es ih => rw [exprsInUnit, ih, List.map_cons]

@[simp]
theorem namedInUnit_eq_map (as : List (NamedArgument Expr)) :
    namedInUnit unit as = as.map (NamedArgument.inUnit unit) := by
  induction as with
  | nil => rfl
  | cons a as ih => rw [namedInUnit, ih, List.map_cons, NamedArgument.inUnit]

@[simp]
theorem nodesInUnit_eq_map (ns : List Node) : nodesInUnit unit ns = ns.map (Node.inUnit unit) := by
  induction ns with
  | nil => rfl
  | cons n ns ih => rw [nodesInUnit, ih, List.map_cons]

@[simp]
theorem armsInUnit_eq_map (as : List (Arm Node)) :
    armsInUnit unit as = as.map (Arm.inUnit unit) := by
  induction as with
  | nil => rfl
  | cons a as ih => rw [armsInUnit, ih, List.map_cons, Arm.inUnit, nodesInUnit_eq_map]

@[simp]
theorem Expr.span_inUnit (e : Expr) : (e.inUnit unit).span = e.span.inUnit unit := by
  cases e <;> rfl

end Template

/-! ## Scanning -/

namespace Scanner

def inUnit (unit : String) (s : Scanner) : Scanner :=
  { s with unit }

end Scanner

def ScanStep.inUnit (unit : String) : ScanStep → ScanStep
  | .token t s => .token (t.inUnit unit) (s.inUnit unit)
  | .fault f => .fault (f.inUnit unit)
  | .finished => .finished

namespace Scanner

theorem next_inUnit (unit : String) (s : Scanner) :
    (s.inUnit unit).next = s.next.inUnit unit := by
  obtain ⟨delimiters, name, position, rest, mode⟩ := s
  cases mode with
  | text =>
      simp only [next, inUnit, nextText]
      split
      · rfl
      · split
        · rfl
        · rw [apply_ite (ScanStep.inUnit unit)]
          rfl
  | tag =>
      simp only [next, inUnit, skipBlanks, nextInTag]
      split
      · rfl
      · split
        · rfl
        · split
          · rfl
          · split
            · rfl
            · split
              · rfl
              · split
                · simp only [nextString]
                  split <;> rfl
                · simp only [nextSign]
                  split
                  · rfl
                  · split <;> rfl
  | comment opened =>
      simp only [next, inUnit, nextComment]
      split <;> rfl
  | commentEnd marker => rfl
  | finished => rfl

theorem run_inUnit (unit : String) (fuel : Nat) (s : Scanner) :
    (s.inUnit unit).run fuel =
      ((s.run fuel).1.map (Token.inUnit unit), (s.run fuel).2.map (Located.inUnit unit)) := by
  induction fuel generalizing s with
  | zero => rfl
  | succ fuel ih =>
      rw [run, run, next_inUnit]
      cases s.next with
      | finished => rfl
      | fault f => rfl
      | token t s' => simp only [ScanStep.inUnit, ih, List.map_cons]

end Scanner

theorem tokenize_inUnit (source unit name : String) (delimiters : Delimiters) :
    tokenize source unit delimiters =
      ((tokenize source name delimiters).1.map (Token.inUnit unit),
        (tokenize source name delimiters).2.map (Located.inUnit unit)) :=
  Scanner.run_inUnit unit _ (.ofSource source name delimiters)

namespace Parser

open EStateM (Result)

variable {α β γ δ : Type} {unit : String}

/-! ## Runs -/

def Stop.inUnit (unit : String) : Stop → Stop
  | .complaint c => .complaint (c.inUnit unit)
  | .lexical f => .lexical (f.inUnit unit)
  | .exhausted => .exhausted
  | .badNumber f => .badNumber f
  | .reversed r => .reversed r
  | .outOfFuel => .outOfFuel

def State.inUnit (unit : String) (s : State) : State where
  unread := s.unread.map (Token.inUnit unit)
  fault := s.fault.map (Located.inUnit unit)
  complaints := s.complaints.map (Located.inUnit unit)
  previous := s.previous.map (Token.inUnit unit)
  leftMarker := s.leftMarker

/-- The same end of a run, in another unit. -/
def Renamed (unit : String) (f : α → β) : Result Stop State α → Result Stop State β
  | .ok a s => .ok (f a) (s.inUnit unit)
  | .error e s => .error (e.inUnit unit) (s.inUnit unit)

/-- On renamed tokens `q` gives what `p` gives, renamed. -/
def Mirrors (unit : String) (f : α → β) (p : Parser α) (q : Parser β) : Prop :=
  ∀ s, q (s.inUnit unit) = Renamed unit f (p s)

theorem State.beyond_inUnit (s : State) : (s.inUnit unit).beyond = s.beyond.inUnit unit := by
  unfold beyond inUnit
  cases s.fault <;> rfl

@[simp]
theorem State.length_unread_inUnit (s : State) :
    (s.inUnit unit).unread.length = s.unread.length :=
  List.length_map _

theorem State.consume_inUnit (s : State) (t : Token) (rest : List Token) :
    (s.inUnit unit).consume (t.inUnit unit) (rest.map (Token.inUnit unit)) =
      (s.consume t rest).inUnit unit :=
  rfl

namespace Mirrors

variable {f : α → β} {g : γ → δ}

theorem pure {a : α} {b : β} (h : b = f a) :
    Mirrors unit f (Pure.pure a) (Pure.pure b) := by
  intro s
  rw [h]
  rfl

theorem throw {e e' : Stop} (h : e' = e.inUnit unit) :
    Mirrors unit f (MonadExcept.throw e : Parser α) (MonadExcept.throw e') := by
  intro s
  rw [h]
  rfl

theorem bind {p : Parser α} {q : Parser β} {k : α → Parser γ} {l : β → Parser δ}
    (hp : Mirrors unit f p q) (hk : ∀ a, Mirrors unit g (k a) (l (f a))) :
    Mirrors unit g (p >>= k) (q >>= l) := by
  intro s
  show EStateM.bind q l _ = Renamed unit g (EStateM.bind p k s)
  unfold EStateM.bind
  rw [hp s]
  cases p s with
  | ok a s' => exact hk a s'
  | error e s' => rfl

theorem map {p : Parser α} {q : Parser β} {h : α → γ} {h' : β → δ} (hp : Mirrors unit f p q)
    (hh : ∀ a, h' (f a) = g (h a)) : Mirrors unit g (h <$> p) (h' <$> q) :=
  bind hp fun a => pure (hh a)

theorem recovering {p : Parser α} {q : Parser β} (hp : Mirrors unit f p q)
    (hr : ∀ c, Mirrors unit id (recover c) (recover (c.inUnit unit))) :
    Mirrors unit (Option.map f) (recovering p) (recovering q) := by
  intro s
  have hsome : Mirrors unit (Option.map f) (some <$> p) (some <$> q) := map hp fun _ => rfl
  show EStateM.tryCatch (some <$> q) _ _ = Renamed unit _ (EStateM.tryCatch (some <$> p) _ s)
  unfold EStateM.tryCatch
  rw [hsome s]
  cases (some <$> p) s with
  | ok a s' => rfl
  | error e s' =>
      cases e with
      | complaint c =>
          exact (bind (hr c) fun _ => pure rfl : Mirrors unit (Option.map f)
            (do recover c; return none) (do recover (c.inUnit unit); return none)) s'
      | _ => rfl

theorem ite {c c' : Prop} [Decidable c] [Decidable c'] {p p' : Parser α} {q q' : Parser β}
    (hc : c' ↔ c) (hp : c → Mirrors unit f p q) (hp' : ¬ c → Mirrors unit f p' q') :
    Mirrors unit f (if c then p else p') (if c' then q else q') := by
  by_cases h : c
  · rw [if_pos h, if_pos (hc.mpr h)]
    exact hp h
  · rw [if_neg h, if_neg (fun h' => h (hc.mp h'))]
    exact hp' h

theorem complain {problem : SyntaxProblem} {span span' : Span} (h : span' = span.inUnit unit) :
    Mirrors unit f (complain problem span) (complain problem span') :=
  throw (by rw [h]; rfl)

/-! ## Tokens -/

theorem get : Mirrors unit (State.inUnit unit) MonadState.get MonadState.get :=
  fun _ => rfl

theorem peek : Mirrors unit (Token.inUnit unit) peek peek := by
  intro s
  obtain ⟨unread, fault, complaints, previous, leftMarker⟩ := s
  cases unread with
  | nil => exact congrArg (Result.error · _) (State.beyond_inUnit _)
  | cons t rest => rfl

theorem peekSecond : Mirrors unit (Token.inUnit unit) peekSecond peekSecond := by
  intro s
  obtain ⟨unread, fault, complaints, previous, leftMarker⟩ := s
  cases unread with
  | nil => exact congrArg (Result.error · _) (State.beyond_inUnit _)
  | cons t rest =>
      unfold Parser.peekSecond
      by_cases ht : t.kind = .eof
      · simp only [State.inUnit, List.map_cons, Token.inUnit, if_pos ht, Renamed]
      · cases rest with
        | nil =>
            simp only [State.inUnit, List.map_cons, List.map_nil, Token.inUnit, if_neg ht, Renamed]
            have hbeyond := @State.beyond_inUnit unit
              ⟨[t], fault, complaints, previous, leftMarker⟩
            exact congrArg (Result.error · _) hbeyond
        | cons u more =>
            simp only [State.inUnit, List.map_cons, Token.inUnit, if_neg ht, Renamed]

theorem advance : Mirrors unit (Token.inUnit unit) advance advance := by
  intro s
  obtain ⟨unread, fault, complaints, previous, leftMarker⟩ := s
  cases unread with
  | nil => exact congrArg (Result.error · _) (State.beyond_inUnit _)
  | cons t rest =>
      unfold Parser.advance
      by_cases ht : t.kind = .eof
      · simp only [State.inUnit, List.map_cons, Token.inUnit, if_pos ht, Renamed]
        rfl
      · simp only [State.inUnit, List.map_cons, Token.inUnit, if_neg ht, Renamed]
        rfl

theorem note (c : Complaint) : Mirrors unit id (note c) (note (c.inUnit unit)) := by
  intro s
  show Result.ok _ _ = Result.ok _ _
  simp [State.inUnit]

theorem skipTag : Mirrors unit id skipTag skipTag := by
  suffices h : ∀ (ahead : List Token) (s : State),
      skipTagFrom (ahead.map (Token.inUnit unit)) (s.inUnit unit) =
        Renamed unit id (skipTagFrom ahead s) from fun s => h s.unread s
  intro ahead
  induction ahead with
  | nil =>
      intro s
      exact congrArg (Result.error · _) (State.beyond_inUnit _)
  | cons t rest ih =>
      intro s
      rw [List.map_cons, skipTagFrom, skipTagFrom]
      by_cases ht : t.kind = .eof
      · rw [if_pos ht]
        exact if_pos ht
      · rw [if_neg ht]
        refine (if_neg ht).trans ?_
        dsimp only
        rw [State.consume_inUnit]
        by_cases hclose : t.kind.isCloser
        · rw [if_pos hclose]
          exact if_pos hclose
        · rw [if_neg hclose]
          exact (if_neg hclose).trans (ih _)

theorem recover (c : Complaint) : Mirrors unit id (recover c) (recover (c.inUnit unit)) :=
  bind (note c) fun _ => skipTag

theorem expect (kind : TokenKind) (problem : SyntaxProblem) :
    Mirrors unit (Token.inUnit unit) (expect kind problem) (expect kind problem) := by
  refine bind peek ?_
  intro t
  exact ite Iff.rfl (fun _ => advance) fun _ => complain rfl

theorem expectKeyword (word : String) :
    Mirrors unit (Token.inUnit unit) (expectKeyword word) (expectKeyword word) := by
  refine bind peek ?_
  intro t
  exact ite Iff.rfl (fun _ => advance) fun _ => complain rfl

/-! ## Spans -/

theorem between (start stop : Position) (name : String) :
    Mirrors unit (Span.inUnit unit) (checked (Span.between start stop name))
      (checked (Span.between start stop unit)) := by
  unfold Span.between
  split
  · exact throw rfl
  · exact pure rfl

theorem join (s t : Span) :
    Mirrors unit (Span.inUnit unit) (join s t) (join (s.inUnit unit) (t.inUnit unit)) :=
  between s.start t.stop s.unit

theorem previousEnd : Mirrors unit id previousEnd previousEnd := by
  intro s
  obtain ⟨unread, fault, complaints, previous, leftMarker⟩ := s
  cases previous with
  | some t => rfl
  | none =>
      cases unread with
      | nil => exact congrArg (Result.error · _) (State.beyond_inUnit _)
      | cons t rest => rfl

theorem spanFrom (name : String) (start : Position) :
    Mirrors unit (Span.inUnit unit) (spanFrom name start) (spanFrom unit start) :=
  bind previousEnd fun stop => between start stop name

end Mirrors

end Parser

end TemplateCompiler
