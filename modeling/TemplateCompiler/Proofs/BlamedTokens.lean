import TemplateCompiler.Proofs.PairedTemplates
import TemplateCompiler.Proofs.ParseTotal

/-!
# What complaints are about

A parser complains about tokens it can see. So every complaint of a parse has the span of a token of
the source, except for a lexical fault, which is the last one and is the fault that ended the
tokens. A run shows this of itself when it is put beside itself (`Pairing.itself`): the complaints
of two runs are about tokens that stand side by side.

With what is known of faults (`Drops`), a fault ends a unit cleanly. Whatever the parser was in, the
template is left empty, what was found before is kept, and the fault is reported once, behind it.
-/

namespace TemplateCompiler

namespace Parser

/-- A run on these tokens, beside itself. -/
def Pairing.itself (setting : Setting) (ts : List Token) (fault : Option LexicalFault) :
    Pairing where
  setting := setting
  tokens := fun t u => u = t ∧ t ∈ ts
  faults := fun f g => g = f ∧ fault = some f
  joins := False
  kind := fun h => congrArg Token.kind h.1
  value := fun h => congrArg Token.value h.1
  plain := False.elim

namespace Pairing

variable {setting : Setting} {ts us : List Token} {fault : Option LexicalFault}

theorem ahead_itself {mode : ScanMode} (h : mode.Follows us) (hus : us ⊆ ts) :
    (itself setting ts fault).Ahead mode us us := by
  induction us generalizing mode with
  | nil => exact .nil
  | cons t us ih =>
      obtain ⟨mode', hturns, h⟩ := h
      obtain ⟨ht, hrest⟩ := List.cons_subset.mp hus
      exact .step ⟨rfl, ht⟩ hturns (ih h hrest)

variable (setting fault) in
theorem beside_itself (h : ScanMode.text.Follows ts) :
    (itself setting ts fault).Beside .text False { unread := ts, fault := fault }
      { unread := ts, fault := fault } where
  ahead := ahead_itself h (List.Subset.refl ts)
  fault := by
    cases fault with
    | none => exact .none
    | some f => exact .some ⟨rfl, rfl⟩
  complaints := .nil
  begun := False.elim
  markers := rfl
  plain := False.elim

end Pairing

/-- The complaint is no lexical fault, and it is about one of these tokens. -/
structure BlamesToken (ts : List Token) (c : Complaint) : Prop where
  proper : ∀ p, c.problem ≠ .lexical p
  token : ∃ t ∈ ts, c.span = t.span

/-- All complaints are about tokens, and only the last may be the fault behind them instead. -/
def Blames (ts : List Token) (fault : Option LexicalFault) (cs : List Complaint) : Prop :=
  ∃ earlier, (∀ c ∈ earlier, BlamesToken ts c) ∧
    (cs = earlier ∨ ∃ f, fault = some f ∧ cs = earlier ++ [⟨.lexical f.problem, f.span⟩])

theorem Pairing.Reported.blames {setting : Setting} {ts : List Token} {fault : Option LexicalFault}
    {cs cs' : List Complaint} (h : (itself setting ts fault).Reported cs cs') :
    Blames ts fault cs := by
  have hearlier : ∀ {cs cs' : List Complaint},
      List.Forall₂ (itself setting ts fault).Complaints cs cs' → ∀ c ∈ cs, BlamesToken ts c := by
    intro cs cs' h
    induction h with
    | nil => nofun
    | cons hc _ ih =>
        obtain ⟨t, _, ⟨-, ht⟩, hspan, -⟩ := hc.spans
        exact List.forall_mem_cons.mpr ⟨⟨hc.proper, t, ht, hspan⟩, ih⟩
  cases h with
  | proper h => exact ⟨_, hearlier h, .inl rfl⟩
  | faulty h hf => exact ⟨_, hearlier h, .inr ⟨_, hf.2, rfl⟩⟩

/-- A whole template is read as its body, without a further complaint. -/
theorem templateBody_of_template {setting : Setting} {s s' : State} {t : Template}
    (h : template setting s = .ok t s') : templateBody setting s = .ok t.body s' := by
  have hends : Ends (template setting) s
      (fun t s' => templateBody setting s = .ok t.body s') fun _ _ => True := by
    unfold template
    have hbody : Ends (templateBody setting) s
        (fun nodes s' => templateBody setting s = .ok nodes s') fun _ _ => True := by
      unfold Ends
      cases templateBody setting s <;> trivial
    refine Ends.bind hbody fun nodes s₁ hrun => ?_
    refine Ends.bind ((spanFrom_looks setting.unit .initial s₁).imp (fun _ _ h => h)
      fun _ _ _ => trivial) ?_
    rintro span _ ⟨rfl, -⟩
    exact Ends.pure hrun
  exact hends.of_ok h

end Parser

/-- Complaints are about the tokens of the source, and about the fault that ended them. -/
theorem parse_blames {setting : Parser.Setting} {delimiters : Delimiters}
    (hd : delimiters.check = .ok ()) {source : String} {p : Parsed}
    (hp : parse setting delimiters source = .ok p) :
    Parser.Blames (tokenize source setting.unit delimiters).1
      (tokenize source setting.unit delimiters).2 p.complaints := by
  obtain ⟨s', hrun, hcomplaints⟩ := Parser.template_of_parse hp
  have hbody := Parser.templateBody_of_template hrun
  have hpair := Parser.Pairing.templateBody_pair (Parser.Pairing.beside_itself setting
    (tokenize source setting.unit delimiters).2 (tokenize_follows hd source setting.unit))
  rw [← hcomplaints]
  cases hpair with
  | ok hok _ h =>
      obtain ⟨-, rfl⟩ := EStateM.Result.ok.inj (hbody.symm.trans hok)
      exact h.2.blames
  | complaint herror | stop herror | first herror | second herror =>
      cases hbody.symm.trans herror

/-! ## Faults are told apart -/

theorem begins_append {word first more : String} (h : word.toList <+: first.toList) :
    word.toList <+: (first ++ more).toList := by
  rw [String.toList_append]
  exact h.trans (List.prefix_append _ _)

/-- How the message of a lexical fault begins. -/
theorem LexicalProblem.message_begins (problem : LexicalProblem) :
    ∃ word ∈ ["NUL", "unterminated", "unknown escape", "invalid"],
      word.toList <+: problem.message.toList := by
  cases problem with
  | nulCharacter => exact ⟨"NUL", by simp, by decide +kernel⟩
  | unterminatedComment => exact ⟨"unterminated", by simp, by decide +kernel⟩
  | unterminatedString => exact ⟨"unterminated", by simp, by decide +kernel⟩
  | unknownEscape c =>
      exact ⟨"unknown escape", by simp, begins_append (begins_append (by decide))⟩
  | invalidCharacter c => exact ⟨"invalid", by simp, begins_append (begins_append (by decide))⟩

/-- How the message of a problem with tokens begins. -/
theorem SyntaxProblem.message_begins (d : Delimiters) {problem : SyntaxProblem}
    (hproper : ∀ p, problem ≠ .lexical p) :
    ∃ word ∈ ["unexpected", "expected", "unknown statement", "duplicate"],
      word.toList <+: (problem.message d).toList := by
  have hexpected : ∀ {message : String}, "expected".toList <+: message.toList →
      ∃ word ∈ ["unexpected", "expected", "unknown statement", "duplicate"],
        word.toList <+: message.toList := fun h => ⟨"expected", by simp, h⟩
  cases problem with
  | lexical p => exact absurd rfl (hproper p)
  | unexpectedToken raw =>
      exact ⟨"unexpected", by simp, begins_append (begins_append (by decide))⟩
  | strayTag word => exact ⟨"unexpected", by simp, begins_append (begins_append (by decide))⟩
  | unknownStatement word =>
      exact ⟨"unknown statement", by simp, begins_append (begins_append (by decide))⟩
  | duplicateParameter parameter definition =>
      refine ⟨"duplicate", by simp, ?_⟩
      exact begins_append (begins_append (begins_append (begins_append (by decide))))
  | unclosedBlock construct =>
      exact hexpected (begins_append (begins_append (begins_append (begins_append (by decide)))))
  | expectedKeyword | expectedBlockEnd | expectedExprEnd | expectedCommentEnd =>
      exact hexpected (begins_append (begins_append (by decide)))
  | _ => exact hexpected (by dsimp only [message]; decide +kernel)

/-- No problem with tokens is reported in the words of a lexical fault. -/
theorem SyntaxProblem.message_ne_of_proper (d : Delimiters) {problem : SyntaxProblem}
    (hproper : ∀ p, problem ≠ .lexical p) (fault : LexicalProblem) :
    problem.message d ≠ fault.message := by
  intro heq
  obtain ⟨word, hword, hbegins⟩ := message_begins d hproper
  obtain ⟨word', hword', hbegins'⟩ := fault.message_begins
  rw [heq] at hbegins
  have hapart : ∀ w ∈ ["unexpected", "expected", "unknown statement", "duplicate"],
      ∀ w' ∈ ["NUL", "unterminated", "unknown escape", "invalid"],
        ¬ w.toList <+: w'.toList ∧ ¬ w'.toList <+: w.toList := by
    decide
  obtain ⟨hno, hno'⟩ := hapart word hword word' hword'
  exact (List.prefix_or_prefix_of_prefix hbegins hbegins').elim hno hno'

/-! ## A fault ends its unit -/

/-- A lexical fault leaves an empty template. It is reported once and last, and whatever is reported
before it is a problem with the tokens before it. -/
theorem parse_reports_fault {setting : Parser.Setting} {delimiters : Delimiters}
    (hd : delimiters.check = .ok ()) {source : String} {fault : LexicalFault}
    (hfault : (tokenize source setting.unit delimiters).2 = some fault) {p : Parsed}
    (hp : parse setting delimiters source = .ok p) :
    p.template.body = [] ∧ ∃ earlier : List Complaint,
      p.complaints = earlier ++ [⟨.lexical fault.problem, fault.span⟩] ∧
      p.diagnostics delimiters =
        earlier.map (·.diagnostic (SyntaxProblem.message delimiters)) ++
          [fault.diagnostic LexicalProblem.message] ∧
      ∀ c ∈ earlier, (∀ q, c.problem ≠ .lexical q) ∧
        (∃ t ∈ (tokenize source setting.unit delimiters).1, c.span = t.span) ∧
        c.problem.message delimiters ≠ fault.problem.message := by
  obtain ⟨hbody, hlast⟩ : p.template.body = [] ∧
      p.complaints.getLast? = some ⟨.lexical fault.problem, fault.span⟩ := by
    rcases parse_returns hd setting source with ⟨p', hp', hdrops⟩ | ⟨stop, hstop, -⟩
    · obtain rfl := Except.ok.inj (hp.symm.trans hp')
      exact hdrops fault hfault
    · cases hp.symm.trans hstop
  obtain ⟨earlier, hblames, hcomplaints⟩ := parse_blames hd hp
  have hall : p.complaints = earlier ++ [⟨.lexical fault.problem, fault.span⟩] := by
    rcases hcomplaints with hnone | ⟨f, hf, hall⟩
    · -- the last complaint is the fault, and so is not about a token
      rw [hnone] at hlast
      exact absurd rfl ((hblames _ (List.mem_of_getLast? hlast)).proper fault.problem)
    · obtain rfl := Option.some.inj (hfault.symm.trans hf)
      exact hall
  refine ⟨hbody, earlier, hall, ?_, ?_⟩
  · unfold Parsed.diagnostics
    rw [hall, List.map_append]
    rfl
  · intro c hc
    obtain ⟨hproper, htoken⟩ := hblames c hc
    exact ⟨hproper, htoken, SyntaxProblem.message_ne_of_proper delimiters hproper fault.problem⟩

/-- A string that is never closed, in two open blocks whose headers are wrong. -/
theorem reports_fault_of_unclosed_string :
    let source := "\x7b% if %\x7da\x7b% macro m(p, p) %\x7d\x7b\x7b 'b"
    Delimiters.standard.check = .ok () ∧ ∃ fault p,
      (tokenize source "page" .standard).2 = some fault ∧
      parse ⟨"page", .minimize⟩ .standard source = .ok p ∧ p.template.body = [] ∧
      p.complaints.map (·.problem) =
        [.expectedExpression, .duplicateParameter "p" "m", .lexical .unterminatedString] ∧
      p.complaints.getLast? = some ⟨.lexical fault.problem, fault.span⟩ := by
  intro source
  obtain ⟨fault, hfault⟩ : ∃ fault, (tokenize source "page" .standard).2 = some fault :=
    Option.isSome_iff_exists.mp (by decide +kernel)
  obtain ⟨p, hp, hproblems⟩ := Except.exists_of_toOption_map
    (x := parse ⟨"page", .minimize⟩ .standard source)
    (f := fun p => p.complaints.map (·.problem))
    (b := [.expectedExpression, .duplicateParameter "p" "m", .lexical .unterminatedString])
    (by decide +kernel)
  obtain ⟨hbody, earlier, hall, -⟩ :=
    @parse_reports_fault ⟨"page", .minimize⟩ _ Delimiters.check_standard _ _ hfault _ hp
  exact ⟨Delimiters.check_standard, fault, p, hfault, hp, hbody, hproblems, by simp [hall]⟩

end TemplateCompiler
