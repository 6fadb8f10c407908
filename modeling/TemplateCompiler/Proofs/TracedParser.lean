import TemplateCompiler.Proofs.StatementSound

/-!
# The parser, watched

`Traced` parsers write down what they do: at which tokens a list of nodes goes on, and what is
skipped where something is wrong. The functions that read lists of nodes or recover are written
again for that; all others are run as they are. Nothing depends on what is written down (`Erases`),
so a template is read as before (`Traced.parse_fst`).
-/

namespace TemplateCompiler.Parser

open EStateM (Result)
open Template (Expr Node)

variable {α β : Type}

/-- What is written down about a run. -/
inductive Event where
  /-- A list of nodes goes on at `t`. -/
  | looks (t : Token)
  /-- What is skipped after a complaint lies between the two states. -/
  | recovers (c : Complaint) (before after : State)

abbrev Traced := EStateM Stop (State × List Event)

namespace Traced

/-- Runs `p`, of which nothing is written down. -/
def lift (p : Parser α) : Traced α := fun x =>
  match p x.1 with
  | .ok a s => .ok a (s, x.2)
  | .error e s => .error e (s, x.2)

def write (e : Event) : Traced Unit := fun x => .ok () (x.1, x.2 ++ [e])

/-- Recovers, and writes that down also where the tokens end in a fault. -/
def recover (c : Complaint) : Traced Unit := fun x =>
  match Parser.recover c x.1 with
  | .ok _ s => .ok () (s, x.2 ++ [.recovers c x.1 s])
  | .error e s => .error e (s, x.2 ++ [.recovers c x.1 s])

def recovering (p : Traced α) : Traced (Option α) :=
  tryCatch (some <$> p) fun
    | .complaint c => do
      recover c
      return none
    | stop => throw stop

/-! ## Templates -/

def nextArm (b : BranchSoFar) : Traced BranchSoFar := do
  let t ← lift peek
  if b.seenElse then
    recover ⟨.strayTag t.value, t.span⟩
    return { b with broken := true }
  else if t.isKeyword "else" then
    let _ ← lift advance
    let _ ← recovering (lift expectBlockEnd)
    return { b with seenElse := true, condition := none }
  else
    let header ← recovering (lift condition)
    return { b with condition := header, broken := b.broken || header.isNone }

mutual

def nodesFrom (setting : Setting) (closers : List String) :
    Nat → List Node → Traced (List Node × Option String)
  | 0, _ => throw .outOfFuel
  | fuel + 1, nodes => do
    let t ← lift peek
    write (.looks t)
    match t.kind with
    | .eof => return (nodes.reverse, none)
    | .text =>
      let node ← lift (text setting)
      nodesFrom setting closers fuel (node.toList ++ nodes)
    | .commentStart =>
      lift comment
      nodesFrom setting closers fuel nodes
    | _ =>
      match ← lift (closingWord? closers t) with
      | some word => return (nodes.reverse, some word)
      | none =>
        let node ← recovering (tag setting fuel)
        nodesFrom setting closers fuel (node.join.toList ++ nodes)

def tag (setting : Setting) : Nat → Traced (Option Node)
  | 0 => throw .outOfFuel
  | fuel + 1 => do
    let t ← lift peek
    match t.kind with
    | .exprStart => some <$> lift (output setting)
    | .blockStart =>
      let opening ← lift advance
      statement setting opening fuel
    | _ =>
      let _ ← lift advance
      lift (complain (.unexpectedToken t.raw) t.span)

/-- Only these words open a block; any other statement is run as it is. -/
def statement (setting : Setting) (opening : Token) : Nat → Traced (Option Node)
  | 0 => throw .outOfFuel
  | fuel + 1 => do
    let t ← lift peek
    if t.isKeyword "if" then branch setting opening fuel
    else if t.isKeyword "for" then loop setting opening fuel
    else if t.isKeyword "macro" then definition setting opening fuel
    else if t.isKeyword "call" then callBlock setting opening fuel
    else lift (Parser.statement setting opening (fuel + 1))

def body (setting : Setting) (opening : Token) (construct : String) (closers : List String) :
    Nat → Traced (List Node × String)
  | 0 => throw .outOfFuel
  | fuel + 1 => do
    let (nodes, word) ← nodesFrom setting closers fuel []
    match word with
    | some word => return (nodes, word)
    | none => lift (complain (.unclosedBlock construct) opening.span)

def branch (setting : Setting) (opening : Token) : Nat → Traced (Option Node)
  | 0 => throw .outOfFuel
  | fuel + 1 => do
    let header ← recovering (lift condition)
    armsFrom setting opening fuel
      { arms := []
        condition := header
        armStart := opening.span.start
        broken := header.isNone
        seenElse := false }

def armsFrom (setting : Setting) (opening : Token) : Nat → BranchSoFar → Traced (Option Node)
  | 0, _ => throw .outOfFuel
  | fuel + 1, b => do
    let (nodes, word) ← body setting opening "if" ["elif", "else", "endif"] fuel
    let arm : Arm Node := ⟨b.condition, nodes, ← lift (spanFrom setting.unit b.armStart)⟩
    let arms := b.arms ++ [arm]
    if word = "endif" then
      lift do
        endTag "endif"
        if b.broken then return none
        else return some (.branch arms (← spanFrom setting.unit opening.span.start))
    else
      let next ← lift advance
      let b ← nextArm { b with arms := arms, armStart := next.span.start }
      armsFrom setting opening fuel b

def loop (setting : Setting) (opening : Token) : Nat → Traced (Option Node)
  | 0 => throw .outOfFuel
  | fuel + 1 => do
    let header ← recovering (lift loopHeader)
    let (nodes, word) ← body setting opening "for" ["else", "endfor"] fuel
    if word = "else" then
      lift (endTag "else")
      let (otherwise, _) ← body setting opening "for" ["endfor"] fuel
      lift (loopEnd setting opening header nodes otherwise)
    else lift (loopEnd setting opening header nodes [])

def definition (setting : Setting) (opening : Token) : Nat → Traced (Option Node)
  | 0 => throw .outOfFuel
  | fuel + 1 => do
    let header ← recovering (lift (definitionHeader setting))
    let (nodes, _) ← body setting opening "macro" ["endmacro"] fuel
    lift do
      endTag "endmacro"
      match header with
      | none => return none
      | some (name, params) =>
        let span ← spanFrom setting.unit opening.span.start
        return some (.definition ⟨name.value, params, nodes, name.span, span⟩)

def callBlock (setting : Setting) (opening : Token) : Nat → Traced (Option Node)
  | 0 => throw .outOfFuel
  | fuel + 1 => do
    let header ← recovering (lift callHeader)
    let (nodes, _) ← body setting opening "call" ["endcall"] fuel
    lift do
      endTag "endcall"
      match header with
      | none => return none
      | some call =>
        return some (.callBlock call nodes (← spanFrom setting.unit opening.span.start))

end

def templateBody (setting : Setting) : Traced (List Node) := fun x =>
  match nodesFrom setting [] (templateFuel x.1.unread.length) [] x with
  | .ok (nodes, _) x => .ok nodes x
  | .error (.lexical fault) (s, log) =>
    let complaint : Complaint := ⟨.lexical fault.problem, fault.span⟩
    .ok [] ({ s with fault := none, complaints := s.complaints ++ [complaint] }, log)
  | .error stop x => .error stop x

def template (setting : Setting) : Traced Template := do
  let nodes ← templateBody setting
  return ⟨nodes, ← lift (spanFrom setting.unit .initial)⟩

/-- What `parse` gives, and what is written down about it. -/
def parse (setting : Setting) (delimiters : Delimiters) (source : String) :
    Except Stop Parsed × List Event :=
  let (tokens, fault) := tokenize source setting.unit delimiters
  match template setting ({ unread := tokens, fault := fault }, []) with
  | .ok t (s, log) => (.ok ⟨t, s.complaints⟩, log)
  | .error stop (_, log) => (.error stop, log)

/-! ## What is written down changes nothing -/

/-- The outcome of a run alone. -/
def forget : Result Stop (State × List Event) α → Result Stop State α
  | .ok a (s, _) => .ok a s
  | .error e (s, _) => .error e s

/-- Whatever is written down, `q` does what `p` does. -/
def Erases (q : Traced α) (p : Parser α) : Prop :=
  ∀ s log, forget (q (s, log)) = p s

namespace Erases

variable {q : Traced α} {p : Parser α}

theorem lift (p : Parser α) : Erases (lift p) p := by
  intro s log
  unfold Traced.lift
  cases p s <;> simp only [forget]

theorem pure (a : α) : Erases (Pure.pure a) (Pure.pure a) :=
  fun _ _ => rfl

theorem throw (e : Stop) : Erases (throw e : Traced α) (MonadExcept.throw e) :=
  fun _ _ => rfl

theorem write {e : Event} (h : Erases q p) : Erases (write e >>= fun _ => q) p :=
  fun s log => h s (log ++ [e])

theorem bind {g : α → Traced β} {f : α → Parser β} (h : Erases q p)
    (hg : ∀ a, Erases (g a) (f a)) : Erases (q >>= g) (p >>= f) := by
  intro s log
  have hp := h s log
  cases hq : q (s, log) with
  | ok a x =>
      rw [hq] at hp
      rw [bind_apply_of_ok hq, bind_apply_of_ok hp.symm]
      exact hg a x.1 x.2
  | error e x =>
      rw [hq] at hp
      rw [bind_apply_of_error hq, bind_apply_of_error hp.symm]
      rfl

theorem map {g : α → β} (h : Erases q p) : Erases (g <$> q) (g <$> p) :=
  bind h fun a => pure (g a)

theorem recover (c : Complaint) : Erases (recover c) (Parser.recover c) := by
  intro s log
  unfold Traced.recover
  cases Parser.recover c s <;> simp only [forget]

theorem recovering (h : Erases q p) : Erases (recovering q) (Parser.recovering p) := by
  intro s log
  have hmap := (h.map (g := some)) s log
  cases hq : (some <$> q) (s, log) with
  | ok a x =>
      rw [hq] at hmap
      rw [Traced.recovering, Parser.recovering, tryCatch_apply_of_ok hq,
        tryCatch_apply_of_ok hmap.symm]
      rfl
  | error e x =>
      rw [hq] at hmap
      rw [Traced.recovering, Parser.recovering, tryCatch_apply_of_error hq,
        tryCatch_apply_of_error hmap.symm]
      cases e with
      | complaint c => exact (bind (recover c) fun _ => pure none) x.1 x.2
      | _ => rfl

/-- What is known of the run is known of the traced run. -/
theorem ends (h : Erases q p) {s : State} {log : List Event} {Q : α → State → Prop}
    {E : Stop → State → Prop} (hp : Ends p s Q E) :
    Ends q (s, log) (fun a x => Q a x.1) fun e x => E e x.1 := by
  unfold Ends at *
  rw [← h s log] at hp
  cases hq : q (s, log) with
  | ok a x =>
      rw [hq] at hp
      exact hp
  | error e x =>
      rw [hq] at hp
      exact hp

end Erases

theorem nextArm_erases (b : BranchSoFar) : Erases (nextArm b) (Parser.nextArm b) := by
  refine .bind (.lift peek) fun t => ?_
  split
  · exact .bind (.recover _) fun _ => .pure _
  · split
    · refine .bind (.lift advance) fun _ => ?_
      exact .bind (.recovering (.lift expectBlockEnd)) fun _ => .pure _
    · exact .bind (.recovering (.lift condition)) fun _ => .pure _

/-- The statements that open a block. -/
theorem statement_block (setting : Setting) (opening : Token) (fuel : Nat) {s : State} {t : Token}
    {rest : List Token} (hs : s.unread = t :: rest) :
    (t.isKeyword "if" → Parser.statement setting opening (fuel + 1) s =
        Parser.branch setting opening fuel s) ∧
      (t.isKeyword "for" → Parser.statement setting opening (fuel + 1) s =
        Parser.loop setting opening fuel s) ∧
      (t.isKeyword "macro" → Parser.statement setting opening (fuel + 1) s =
        Parser.definition setting opening fuel s) ∧
      (t.isKeyword "call" → Parser.statement setting opening (fuel + 1) s =
        Parser.callBlock setting opening fuel s) := by
  rw [Parser.statement, bind_apply_of_ok (peek_eq hs)]
  simp only [Token.isKeyword, Bool.and_eq_true, decide_eq_true_eq]
  refine ⟨?_, ?_, ?_, ?_⟩ <;> rintro ⟨hkind, hvalue⟩ <;> simp only [hkind, hvalue]

/-- With this fuel, each function does what it is written after. -/
structure TemplatesErase (setting : Setting) (fuel : Nat) : Prop where
  nodesFrom : ∀ closers nodes,
    Erases (nodesFrom setting closers fuel nodes) (Parser.nodesFrom setting closers fuel nodes)
  tag : Erases (tag setting fuel) (Parser.tag setting fuel)
  statement : ∀ opening,
    Erases (statement setting opening fuel) (Parser.statement setting opening fuel)
  body : ∀ opening construct closers, Erases (body setting opening construct closers fuel)
    (Parser.body setting opening construct closers fuel)
  branch : ∀ opening, Erases (branch setting opening fuel) (Parser.branch setting opening fuel)
  armsFrom : ∀ opening b,
    Erases (armsFrom setting opening fuel b) (Parser.armsFrom setting opening fuel b)
  loop : ∀ opening, Erases (loop setting opening fuel) (Parser.loop setting opening fuel)
  definition : ∀ opening,
    Erases (definition setting opening fuel) (Parser.definition setting opening fuel)
  callBlock : ∀ opening,
    Erases (callBlock setting opening fuel) (Parser.callBlock setting opening fuel)

theorem templatesErase_zero (setting : Setting) : TemplatesErase setting 0 where
  nodesFrom closers nodes := by
    rw [nodesFrom, Parser.nodesFrom]
    exact .throw _
  tag := by
    rw [tag, Parser.tag]
    exact .throw _
  statement opening := by
    rw [statement, Parser.statement]
    exact .throw _
  body opening construct closers := by
    rw [body, Parser.body]
    exact .throw _
  branch opening := by
    rw [branch, Parser.branch]
    exact .throw _
  armsFrom opening b := by
    rw [armsFrom, Parser.armsFrom]
    exact .throw _
  loop opening := by
    rw [loop, Parser.loop]
    exact .throw _
  definition opening := by
    rw [definition, Parser.definition]
    exact .throw _
  callBlock opening := by
    rw [callBlock, Parser.callBlock]
    exact .throw _

section

variable {setting : Setting} {fuel : Nat} (ih : TemplatesErase setting fuel)

include ih

theorem nodesFrom_erases (closers : List String) (nodes : List Node) :
    Erases (nodesFrom setting closers (fuel + 1) nodes)
      (Parser.nodesFrom setting closers (fuel + 1) nodes) := by
  rw [nodesFrom, Parser.nodesFrom]
  refine .bind (.lift peek) fun t => .write ?_
  cases t.kind with
  | eof => exact .pure _
  | text => exact .bind (.lift (text setting)) fun node => ih.nodesFrom closers _
  | commentStart => exact .bind (.lift comment) fun _ => ih.nodesFrom closers nodes
  | _ =>
      refine .bind (.lift (closingWord? closers t)) fun word => ?_
      cases word with
      | some word => exact .pure _
      | none => exact .bind ih.tag.recovering fun node => ih.nodesFrom closers _

theorem tag_erases : Erases (tag setting (fuel + 1)) (Parser.tag setting (fuel + 1)) := by
  rw [tag, Parser.tag]
  refine .bind (.lift peek) fun t => ?_
  cases t.kind with
  | exprStart => exact .map (.lift (output setting))
  | blockStart => exact .bind (.lift advance) fun opening => ih.statement opening
  | _ => exact .bind (.lift advance) fun _ => .lift (complain _ t.span)

theorem statement_erases (opening : Token) :
    Erases (statement setting opening (fuel + 1))
      (Parser.statement setting opening (fuel + 1)) := by
  intro s log
  rw [statement]
  cases hs : s.unread with
  | nil =>
      have hpeek : peek s = .error s.beyond s := by rw [peek, hs]
      have htraced : lift peek (s, log) = .error s.beyond (s, log) := by rw [lift, hpeek]
      rw [Parser.statement, bind_apply_of_error hpeek, bind_apply_of_error htraced]
      rfl
  | cons t rest =>
      have htraced : lift peek (s, log) = .ok t (s, log) := by rw [lift, peek_eq hs]
      obtain ⟨hif, hfor, hdef, hcall⟩ := statement_block setting opening fuel hs
      rw [bind_apply_of_ok htraced]
      split
      · next ht => rw [hif ht, ih.branch opening s log]
      · split
        · next ht => rw [hfor ht, ih.loop opening s log]
        · split
          · next ht => rw [hdef ht, ih.definition opening s log]
          · split
            · next ht => rw [hcall ht, ih.callBlock opening s log]
            · exact Erases.lift _ s log

theorem body_erases (opening : Token) (construct : String) (closers : List String) :
    Erases (body setting opening construct closers (fuel + 1))
      (Parser.body setting opening construct closers (fuel + 1)) := by
  rw [body, Parser.body]
  refine .bind (ih.nodesFrom closers []) fun r => ?_
  obtain ⟨nodes, word⟩ := r
  cases word with
  | none => exact .lift _
  | some word => exact .pure _

theorem branch_erases (opening : Token) :
    Erases (branch setting opening (fuel + 1)) (Parser.branch setting opening (fuel + 1)) := by
  rw [branch, Parser.branch]
  exact .bind (.recovering (.lift condition)) fun header => ih.armsFrom opening _

theorem armsFrom_erases (opening : Token) (b : BranchSoFar) :
    Erases (armsFrom setting opening (fuel + 1) b)
      (Parser.armsFrom setting opening (fuel + 1) b) := by
  rw [armsFrom, Parser.armsFrom]
  refine .bind (ih.body opening "if" _) fun r => .bind (.lift _) fun span => ?_
  dsimp only
  split
  · exact .lift _
  · refine .bind (.lift advance) fun next => .bind (nextArm_erases _) fun b' => ?_
    exact ih.armsFrom opening b'

theorem loop_erases (opening : Token) :
    Erases (loop setting opening (fuel + 1)) (Parser.loop setting opening (fuel + 1)) := by
  rw [loop, loop_succ]
  refine .bind (.recovering (.lift loopHeader)) fun header => ?_
  refine .bind (ih.body opening "for" _) fun r => ?_
  dsimp only
  split
  · refine .bind (.lift _) fun _ => ?_
    exact .bind (ih.body opening "for" _) fun o => .lift _
  · exact .lift _

theorem definition_erases (opening : Token) :
    Erases (definition setting opening (fuel + 1))
      (Parser.definition setting opening (fuel + 1)) := by
  rw [definition, Parser.definition]
  refine .bind (.recovering (.lift _)) fun header => ?_
  exact .bind (ih.body opening "macro" _) fun r => .lift _

theorem callBlock_erases (opening : Token) :
    Erases (callBlock setting opening (fuel + 1))
      (Parser.callBlock setting opening (fuel + 1)) := by
  rw [callBlock, Parser.callBlock]
  refine .bind (.recovering (.lift _)) fun header => ?_
  exact .bind (ih.body opening "call" _) fun r => .lift _

end

theorem templatesErase (setting : Setting) : ∀ fuel, TemplatesErase setting fuel
  | 0 => templatesErase_zero setting
  | fuel + 1 =>
      have ih := templatesErase setting fuel
      { nodesFrom := nodesFrom_erases ih
        tag := tag_erases ih
        statement := statement_erases ih
        body := body_erases ih
        branch := branch_erases ih
        armsFrom := armsFrom_erases ih
        loop := loop_erases ih
        definition := definition_erases ih
        callBlock := callBlock_erases ih }

theorem templateBody_erases (setting : Setting) :
    Erases (templateBody setting) (Parser.templateBody setting) := by
  intro s log
  have h := (templatesErase setting (templateFuel s.unread.length)).nodesFrom [] [] s log
  unfold templateBody Parser.templateBody
  rw [← h]
  cases hrun : nodesFrom setting [] (templateFuel s.unread.length) [] (s, log) with
  | ok r x => simp only [forget]
  | error e x => cases e <;> simp only [forget]

theorem template_erases (setting : Setting) :
    Erases (template setting) (Parser.template setting) :=
  .bind (templateBody_erases setting) fun _ => .bind (.lift _) fun _ => .pure _

theorem parse_fst (setting : Setting) (delimiters : Delimiters) (source : String) :
    (parse setting delimiters source).1 = TemplateCompiler.parse setting delimiters source := by
  unfold parse TemplateCompiler.parse parseTokens
  dsimp only
  rw [← template_erases setting _ []]
  split
  · next hrun => rw [hrun, forget]
  · next hrun => rw [hrun, forget]

end Traced
end TemplateCompiler.Parser
