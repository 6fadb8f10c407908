import Mathlib.Data.List.Chain
import TemplateCompiler.Proofs.Coverage
import TemplateCompiler.Proofs.Numerals
import TemplateCompiler.Proofs.Recovery
import TemplateCompiler.Proofs.TokenValues

/-!
# Parsing returns

Whatever is wrong with a source, `parse` gives a template and a list of complaints, with two
exceptions: a source of which not even the first token can be read, and a number that is none.

Three things could stop a parse. A complaint is caught at the tag around it, and the only tag that
is not guarded that way is a comment, whose parts always follow each other in a source
(`Token.Continues`). A lexical fault is caught at the top, where a span is then wanted that starts
with the source; there is one as soon as any token was read. What is left is the conversion of a
number, which nothing guards.
-/

namespace TemplateCompiler

/-! ## Comments among the tokens of a source -/

/-- Behind the opening of a comment stands its body, and behind the body its end. -/
def Token.Continues (t u : Token) : Prop :=
  (t.kind = .commentStart → u.kind = .comment) ∧ (t.kind = .comment → u.kind = .commentEnd)

/-- What a scanner in the middle of a comment reads next. -/
def ScanMode.Expects (mode : ScanMode) (kind : TokenKind) : Prop :=
  match mode with
  | .comment _ => kind = .comment
  | .commentEnd _ => kind = .commentEnd
  | .text | .tag | .finished => True

theorem ScanMode.Turns.expects {mode mode' : ScanMode} {kind : TokenKind}
    (h : mode.Turns kind mode') : mode.Expects kind := by
  cases h <;> first | rfl | trivial

/-- A turn leads to where the token that is to follow is expected. -/
theorem ScanMode.Turns.continues {mode mode' : ScanMode} {t u : Token}
    (h : mode.Turns t.kind mode') (hu : mode'.Expects u.kind) : t.Continues u := by
  generalize hkind : t.kind = kind at h
  unfold Token.Continues
  rw [hkind]
  cases h with
  | openComment => exact ⟨fun _ => hu, nofun⟩
  | comment => exact ⟨nofun, fun _ => hu⟩
  | openTag h | closeTag h => rcases h with rfl | rfl <;> exact ⟨nofun, nofun⟩
  | inner h => constructor <;> rintro rfl <;> cases h
  | text | closeComment | endOfText | endOfTag => exact ⟨nofun, nofun⟩

theorem ScanMode.Follows.continues {mode : ScanMode} {ts : List Token} (h : mode.Follows ts) :
    ts.IsChain Token.Continues ∧ ∀ t ∈ ts.head?, mode.Expects t.kind := by
  induction ts generalizing mode with
  | nil => exact ⟨.nil, by rintro _ ⟨⟩⟩
  | cons t ts ih =>
      obtain ⟨mode', hturns, h⟩ := h
      obtain ⟨hchain, hexpects⟩ := ih h
      refine ⟨hchain.cons fun u hu => hturns.continues (hexpects u hu), ?_⟩
      rintro _ ⟨⟩
      exact hturns.expects

namespace Scanner

/-- No fault follows the end. -/
theorem run_ended (fuel : Nat) (s : Scanner) (hd : s.delimiters.Solid) (hs : s.Consistent) :
    (∃ t ∈ (run fuel s).1, t.kind = .eof) → (run fuel s).2 = none := by
  induction fuel generalizing s with
  | zero => exact fun _ => rfl
  | succ fuel ih =>
      have hsteps := next_steps hd hs
      rw [run]
      split
      · exact fun _ => rfl
      · rintro ⟨_, ⟨⟩, -⟩
      · next t s' hnext =>
          rw [hnext] at hsteps
          obtain ⟨gap, he⟩ := hsteps
          rintro ⟨u, hu, heof⟩
          rcases List.mem_cons.mp hu with rfl | hu
          · have hturns := he.turns
            rw [heof] at hturns
            simp only [run_finished hturns.finished_of_eof]
          · exact ih s' (he.delimiters ▸ hd) he.consistent ⟨u, hu, heof⟩

end Scanner

/-- What a parser may rely on in the tokens of a source. -/
theorem tokenize_continues {delimiters : Delimiters} (hd : delimiters.check = .ok ())
    (source unit : String) :
    (tokenize source unit delimiters).1.IsChain Token.Continues ∧
      (∀ t ∈ (tokenize source unit delimiters).1, t.kind = .number → DigitText t.value.toList) ∧
      ((∃ t ∈ (tokenize source unit delimiters).1, t.kind = .eof) →
        (tokenize source unit delimiters).2 = none) := by
  have hended := Scanner.run_ended (Scanner.fuelFor source.toList)
    (.ofSource source unit delimiters) (Delimiters.solid_of_check hd) nofun
  exact ⟨(tokenize_follows hd source unit).continues.1,
    fun t ht => (tokenize_sound source unit delimiters t ht).number, hended⟩

namespace Parser

open Template (Node)

variable {α : Type}

theorem State.Ordered.of_tokenize {delimiters : Delimiters} (hd : delimiters.check = .ok ())
    (source unit : String) :
    State.Ordered { unread := (tokenize source unit delimiters).1,
                    fault := (tokenize source unit delimiters).2 } := by
  have horder := tokenize_inOrder source unit delimiters
  obtain ⟨s, done, h, -, hend⟩ := tokenize_readUpTo hd source unit
  refine ⟨horder.apart, horder.forward, fun _ _ => Nat.zero_le _, fun hnone => ?_⟩
  obtain ⟨t, ht, heof, -⟩ := h.finished (hend hnone)
  exact ⟨t, List.mem_of_mem_getLast? ht, heof⟩

/-! ## What lets no complaint through -/

theorem peek_looks (s : State) : Looks s peek fun t => s.unread.head? = some t := by
  unfold Looks Ends peek
  cases hs : s.unread with
  | nil => exact ⟨rfl, s.beyond_silent⟩
  | cons t rest => exact ⟨rfl, rfl⟩

theorem peekSecond_looks (s : State) : Looks s peekSecond fun _ => True := by
  unfold Looks Ends peekSecond
  cases s.unread with
  | nil => exact ⟨rfl, s.beyond_silent⟩
  | cons t rest =>
      by_cases ht : t.kind = .eof
      · simp only [if_pos ht, and_self]
      · cases rest with
        | nil => simpa only [if_neg ht, true_and] using s.beyond_silent
        | cons u more => simp only [if_neg ht, and_self]

theorem advance_runs (s : State) : Runs s advance fun _ _ => True := by
  unfold Runs Ends advance
  cases s.unread with
  | nil => exact s.beyond_silent
  | cons t rest => trivial

theorem skipTag_runs (s : State) : Runs s skipTag fun _ _ => True := by
  suffices h : ∀ (ahead : List Token) (s : State), Runs s (skipTagFrom ahead) fun _ _ => True from
    h s.unread s
  intro ahead
  induction ahead with
  | nil => exact State.beyond_silent
  | cons t rest ih =>
      intro s
      have hrest := ih (s.consume t rest)
      unfold Runs Ends at hrest ⊢
      rw [skipTagFrom]
      by_cases ht : t.kind = .eof
      · simp only [if_pos ht]
      · by_cases hclose : t.kind.isCloser
        · simp only [if_neg ht, if_pos hclose]
        · simpa only [if_neg ht, if_neg hclose] using hrest

/-- Whatever stops a guarded run is no complaint. -/
theorem recovering_runs (p : Parser α) (s : State) : Runs s (recovering p) fun _ _ => True := by
  refine Ends.tryCatch (F := fun _ _ => True) ?_ ?_
  · unfold Ends
    split <;> trivial
  · intro e s' _
    cases e with
    | complaint c =>
        refine Ends.bind (P := fun _ _ => True) (Ends.step rfl (skipTag_runs _)) ?_
        intro _ s'' _
        exact Ends.pure trivial
    | _ => exact Ends.throw trivial

theorem text_runs (setting : Setting) (s : State) : Runs s (text setting) fun _ _ => True := by
  refine Ends.bind (advance_runs s) fun t s₁ _ => ?_
  refine Ends.bind (peek_looks s₁).runs fun following s₂ _ => ?_
  exact Ends.step rfl (Ends.step rfl (Ends.pure trivial))

theorem closingWord?_looks (closers : List String) (t : Token) (s : State) :
    Looks s (closingWord? closers t) fun o => ∀ word, o = some word → closers.contains word := by
  unfold closingWord?
  split
  · refine Ends.bind (peekSecond_looks s) ?_
    rintro u s' ⟨rfl, -⟩
    refine Ends.pure ⟨rfl, ?_⟩
    intro word hword
    split at hword
    · next h =>
        cases hword
        exact (Bool.and_eq_true_iff.mp h).2
    · cases hword
  · exact Ends.pure ⟨rfl, nofun⟩

/-- In a source an expected part of a comment is there, unless the tokens end before it. -/
theorem expect_ends {kind : TokenKind} {problem : SyntaxProblem} {s : State}
    (h : ∀ t ∈ s.unread.head?, t.kind = kind) :
    Ends (expect kind problem) s (fun t s' => t.kind = kind ∧
        ∃ rest, s.unread = t :: rest ∧ (kind ≠ .eof → s' = s.consume t rest))
      fun e s' => s' = s ∧ e.Silent := by
  refine Ends.bind (peek_looks s) ?_
  rintro t _ ⟨rfl, ht⟩
  obtain ⟨rest, hs⟩ := List.head?_eq_some_iff.mp ht
  have hkind : t.kind = kind := h t ht
  rw [if_pos hkind]
  unfold Ends advance
  simp only [hs]
  refine ⟨hkind, rest, rfl, ?_⟩
  intro hne
  rw [if_neg (hkind ▸ hne)]

/-- The one tag that is not guarded is never wrong. -/
theorem comment_runs {s : State} {t : Token} {rest : List Token} (hs : s.unread = t :: rest)
    (ht : t.kind = .commentStart) (hchain : s.unread.IsChain Token.Continues) :
    Runs s comment fun _ _ => True := by
  rw [hs] at hchain
  refine Ends.step (advance_eq hs (by simp [ht])) ?_
  refine Ends.bind (Ends.imp (expect_ends fun u hu => (hchain.rel_head? hu).1 ht)
    (fun _ _ h => h) fun _ _ he => he.2) ?_
  rintro body s₁ ⟨hbody, more, hrest, hmore⟩
  have hrest : rest = body :: more := hrest
  rw [hrest] at hchain
  refine Ends.bind (Ends.imp (expect_ends fun u hu => ?_) (fun _ _ h => h) fun _ _ he => he.2)
    fun _ _ _ => Ends.pure trivial
  rw [hmore nofun, State.consume] at hu
  exact (hchain.tail.rel_head? hu).2 hbody

/-! ## Nodes up to the end -/

/-- Nodes are read up to a closing word that is looked for, or up to the end of the tokens, and no
complaint stops them. -/
theorem nodesFrom_runs (setting : Setting) (closers : List String) (fuel : Nat)
    (nodes : List Node) (s : State) (hfuel : 8 * s.unread.length + 1 ≤ fuel) (ho : s.Ordered)
    (hchain : s.unread.IsChain Token.Continues) :
    Runs s (nodesFrom setting closers fuel nodes) fun r _ =>
      (r.2 = none → ∃ t ∈ s.unread, t.kind = .eof) ∧
        ∀ word, r.2 = some word → closers.contains word := by
  induction fuel generalizing nodes s with
  | zero => omega
  | succ fuel ih =>
      -- behind a first part that takes a token, the rest is read with less fuel
      have hgo : ∀ {β : Type} (p : Parser β) (g : β → List Node), Runs s p (fun _ _ => True) →
          Moves .any s p (fun _ s' => s'.unread.length < s.unread.length) →
          Runs s (do let b ← p; nodesFrom setting closers fuel (g b)) fun r _ =>
            (r.2 = none → ∃ t ∈ s.unread, t.kind = .eof) ∧
              ∀ word, r.2 = some word → closers.contains word := by
        intro β p g hp hmoves
        refine Ends.bind ((Ends.and hp (hmoves ho)).imp (fun _ _ h => h.2) fun _ _ he => he.1) ?_
        rintro b s' ⟨honward, hlt⟩
        obtain ⟨us, hus, -⟩ := honward.ahead
        have hsuffix : s'.unread <:+ s.unread := ⟨us, hus.symm⟩
        refine (ih (g b) s' (by omega) honward.ordered (hchain.suffix hsuffix)).imp ?_
          fun _ _ he => he
        rintro r _ ⟨hnone, hword⟩
        refine ⟨?_, hword⟩
        intro h
        obtain ⟨t, ht, heof⟩ := hnone h
        exact ⟨t, hsuffix.subset ht, heof⟩
      rw [nodesFrom]
      refine Ends.bind (peek_looks s).runs ?_
      rintro t _ ⟨rfl, ht⟩
      obtain ⟨rest, hs⟩ := List.head?_eq_some_iff.mp ht
      split
      · next heof =>
          refine Ends.pure ⟨fun _ => ?_, by rintro _ ⟨⟩⟩
          exact ⟨t, by simp [hs], heof⟩
      · next htext => exact hgo _ _ (text_runs setting _) (text_moves setting hs htext)
      · next hcomment =>
          exact hgo _ (fun _ => nodes) (comment_runs hs hcomment hchain) (comment_moves hs hcomment)
      · next heof _ _ =>
          refine Ends.bind (closingWord?_looks closers t _).runs ?_
          rintro o s' ⟨rfl, hword⟩
          cases o with
          | some word =>
              refine Ends.pure ⟨by rintro ⟨⟩, ?_⟩
              rintro _ ⟨⟩
              exact hword word rfl
          | none =>
              have htag := (templatesEnd setting fuel).tag _ t rest hs heof (by omega)
              exact hgo _ _ (recovering_runs _ _) htag.recovering

/-! ## Whole templates -/

/-- What stops a parse of these tokens: there are none, or a number among them cannot be read. -/
inductive Stop.Escapes (ts : List Token) : Stop → Prop
  | nothingRead (h : ts = []) : Escapes ts .exhausted
  | badNumber {t : Token} {f : NumeralFault} (ht : t ∈ ts) (hkind : t.kind = .number)
      (hodd : OddNumber t.value.toList) (hbad : readNumber t.value = .error f) :
      Escapes ts (.badNumber f)

/-- A lexical fault leaves an empty list of nodes and the last of the complaints. -/
def Drops (fault : Option LexicalFault) (nodes : List Node) (complaints : List Complaint) : Prop :=
  ∀ f, fault = some f →
    nodes = [] ∧ complaints.getLast? = some ⟨.lexical f.problem, f.span⟩

theorem templateBody_ends (setting : Setting) {s : State} (ho : s.Ordered)
    (hchain : s.unread.IsChain Token.Continues)
    (hnumbers : ∀ t ∈ s.unread, t.kind = .number → DigitText t.value.toList)
    (hend : (∃ t ∈ s.unread, t.kind = .eof) → s.fault = none) :
    Ends (templateBody setting) s (fun nodes s' => Drops s.fault nodes s'.complaints ∧
      (s'.previous = none → s'.unread = s.unread)) fun e _ => e.Escapes s.unread := by
  have hfuel : 8 * s.unread.length + 1 ≤ templateFuel s.unread.length := by
    unfold templateFuel
    omega
  have hruns := nodesFrom_runs setting [] _ [] s hfuel ho hchain
  have hnodes := Ends.and hruns ((templatesEnd setting _).nodesFrom [] [] s hfuel ho)
  unfold Ends templateBody at *
  cases hrun : nodesFrom setting [] (templateFuel s.unread.length) [] s with
  | ok r s' =>
      rw [hrun] at hnodes
      obtain ⟨⟨hnone, hword⟩, honward, -⟩ := hnodes
      have hlast : r.2 = none := by
        cases hr : r.2 with
        | none => rfl
        | some word => simpa using hword word hr
      have hfault := hend (hnone hlast)
      refine ⟨?_, fun h => (honward.taken h).1⟩
      intro f hf
      cases hfault.symm.trans hf
  | error e s' =>
      rw [hrun] at hnodes
      obtain ⟨hsilent, honward, hstops⟩ := hnodes
      cases e with
      | lexical f =>
          refine ⟨?_, fun h => (honward.taken h).1⟩
          intro f' hf'
          cases Option.some.inj (hf'.symm.trans hstops)
          exact ⟨rfl, by simp⟩
      | badNumber f =>
          obtain ⟨t, ht, hkind, hbad⟩ := hstops
          rcases (hnumbers t ht hkind).readNumber with ⟨value, hvalue⟩ | hodd
          · cases hvalue.symm.trans hbad
          · exact .badNumber ht hkind hodd hbad
      | complaint c => exact hsilent.elim
      | exhausted | reversed _ | outOfFuel => exact hstops.elim

/-- A template is read from the tokens of a source, unless one of the two things stops it. -/
theorem template_returns (setting : Setting) {ts : List Token} {fault : Option LexicalFault}
    (ho : State.Ordered { unread := ts, fault := fault }) (hchain : ts.IsChain Token.Continues)
    (hnumbers : ∀ t ∈ ts, t.kind = .number → DigitText t.value.toList)
    (hend : (∃ t ∈ ts, t.kind = .eof) → fault = none) :
    Ends (template setting) { unread := ts, fault := fault }
      (fun t s' => Drops fault t.body s'.complaints) fun e _ => e.Escapes ts := by
  rcases List.eq_nil_or_concat ts with rfl | ⟨before, last, hts⟩
  · cases fault with
    | none =>
        obtain ⟨t, ht, -⟩ := ho.ends rfl
        cases ht
    | some f => exact .nothingRead rfl
  · refine Ends.bind (templateBody_ends setting ho hchain hnumbers hend) ?_
    rintro nodes s' ⟨hdrops, htaken⟩
    have hne : s'.previous = none → s'.unread ≠ [] := by
      intro h
      rw [htaken h, hts]
      simp
    obtain ⟨span, hspan⟩ := spanFrom_initial setting.unit hne
    exact Ends.step hspan (Ends.pure hdrops)

end Parser

/-- Where not even a first token can be read, the parser looks for one beyond the end. -/
theorem parse_of_nothing {setting : Parser.Setting} {delimiters : Delimiters} {source : String}
    (h : (tokenize source setting.unit delimiters).1 = []) :
    parse setting delimiters source = .error .exhausted := by
  unfold parse
  obtain ⟨⟨ts, fault⟩, htokens⟩ : ∃ r, tokenize source setting.unit delimiters = r := ⟨_, rfl⟩
  rw [htokens] at h ⊢
  obtain rfl : ts = [] := h
  cases fault <;> rfl

/-- What is read from tokens that end in a fault is never free of complaints. -/
theorem complaints_ne_nil_of_fault {setting : Parser.Setting} {delimiters : Delimiters}
    (hd : delimiters.check = .ok ()) {source : String} {fault : LexicalFault}
    (hfault : (tokenize source setting.unit delimiters).2 = some fault) {p : Parsed}
    (hp : parse setting delimiters source = .ok p) : p.complaints ≠ [] := by
  obtain ⟨hchain, hnumbers, hend⟩ := tokenize_continues hd source setting.unit
  have hreturns := Parser.template_returns setting
    (Parser.State.Ordered.of_tokenize hd source setting.unit) hchain hnumbers hend
  obtain ⟨s', hrun, hcomplaints⟩ := Parser.template_of_parse hp
  obtain ⟨-, hlast⟩ := hreturns.of_ok hrun fault hfault
  intro hnone
  rw [hcomplaints, hnone] at hlast
  cases hlast

/-- Every source gives a template and a list of complaints, unless its first token cannot be
read or one of its numbers is none. A lexical fault is the last complaint, and then the template
is empty. -/
theorem parse_returns {delimiters : Delimiters} (hd : delimiters.check = .ok ())
    (setting : Parser.Setting) (source : String) :
    (∃ p, parse setting delimiters source = .ok p ∧
        Parser.Drops (tokenize source setting.unit delimiters).2 p.template.body p.complaints) ∨
      ∃ stop, parse setting delimiters source = .error stop ∧
        stop.Escapes (tokenize source setting.unit delimiters).1 := by
  have ho := Parser.State.Ordered.of_tokenize hd source setting.unit
  obtain ⟨hchain, hnumbers, hend⟩ := tokenize_continues hd source setting.unit
  unfold parse parseTokens
  obtain ⟨⟨ts, fault⟩, htokens⟩ : ∃ r, tokenize source setting.unit delimiters = r := ⟨_, rfl⟩
  rw [htokens] at ho hchain hnumbers hend ⊢
  have h := Parser.template_returns setting ho hchain hnumbers hend
  dsimp only
  cases hrun : Parser.template setting { unread := ts, fault := fault } with
  | ok t s' => exact .inl ⟨_, rfl, h.of_ok hrun⟩
  | error stop s' => exact .inr ⟨stop, rfl, h.of_error hrun⟩

/-- A number, a tag without a condition, and a string that is never closed. -/
theorem returns_of_unterminated_string :
    let source := "\x7b\x7b 1_0.5 \x7d\x7d\x7b% if %\x7da\x7b\x7b 'b"
    Delimiters.standard.check = .ok () ∧
      ∃ p, parse ⟨"page", .minimize⟩ .standard source = .ok p ∧ p.template.body = [] ∧
        p.complaints.getLast?.map (·.problem) = some (.lexical .unterminatedString) := by
  intro source
  refine ⟨Delimiters.check_standard, ?_⟩
  have hfault : (tokenize source "page" .standard).2.map (·.problem) =
      some .unterminatedString := by
    decide +kernel
  have hfirst : (tokenize source "page" .standard).1 ≠ [] := by
    decide +kernel
  have hnumbers : ((tokenize source "page" .standard).1.all fun t =>
      t.kind ≠ .number || (Parser.readNumber t.value).isOk) = true := by
    decide +kernel
  rcases parse_returns Delimiters.check_standard ⟨"page", .minimize⟩ source with
    ⟨p, hp, hdrops⟩ | ⟨stop, -, hescapes⟩
  · obtain ⟨f, hf, hproblem⟩ := Option.map_eq_some_iff.mp hfault
    obtain ⟨hbody, hlast⟩ := hdrops f hf
    refine ⟨p, hp, hbody, ?_⟩
    rw [hlast, ← hproblem]
    rfl
  · cases hescapes with
    | nothingRead h => exact absurd h hfirst
    | badNumber ht hkind _ hbad =>
        have hread := List.all_eq_true.mp hnumbers _ ht
        simp [hkind, hbad, Except.isOk, Except.toBool] at hread

end TemplateCompiler
