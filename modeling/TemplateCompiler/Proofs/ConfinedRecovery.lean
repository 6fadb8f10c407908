import TemplateCompiler.Proofs.HeaderComplete
import TemplateCompiler.Proofs.ParseTotal
import TemplateCompiler.Proofs.TracedParser

/-!
# Recovery stays in its tag

Among the tokens of a source, a parser stands between two tags whenever a list of nodes goes on, and
in a tag or at the end whenever something is wrong. Both follow from the modes of the scanner
(`ScanMode.Follows`): what is wrong in a tag is found before its closing delimiter is taken, so
skipping the rest of the tag ends behind that delimiter, and the next list of nodes goes on where a
scanner reads text. `Event.Confined` says this of one event of a traced run, and `Confines` of all.
-/

namespace TemplateCompiler

namespace Parser

open Template (Expr Node)

variable {α β : Type}

/-- The event is what it should be in a run on the tokens `ts`. -/
inductive Event.Confined (ts : List Token) : Event → Prop
  | looks {t : Token} (h : t.kind = .text ∨ t.kind = .commentStart ∨ t.kind = .blockStart ∨
      t.kind = .exprStart ∨ t.kind = .eof) : Confined ts (.looks t)
  /-- The rest of a tag is skipped, and the delimiter that closes it. -/
  | closed {c : Complaint} {s s' : State} {before inner skipped : List Token}
      {opener closer : Token} (hplace : ts = before ++ opener :: (inner ++ s.unread))
      (hopener : opener.kind = .blockStart ∨ opener.kind = .exprStart)
      (hinner : ∀ t ∈ inner, t.kind.isInner)
      (hskip : s.unread = skipped ++ closer :: s'.unread)
      (hskipped : ∀ t ∈ skipped, t.kind.isInner)
      (hcloser : closer.kind = .blockEnd ∨ closer.kind = .exprEnd)
      (hproblem : c.problem.isUnscannable = false) : Confined ts (.recovers c s s')
  /-- No delimiter closes the tag, and all that is left is the end, if the tokens have one. -/
  | unclosed {c : Complaint} {s s' : State} {before inner skipped : List Token} {opener : Token}
      (hplace : ts = before ++ opener :: (inner ++ s.unread))
      (hopener : opener.kind = .blockStart ∨ opener.kind = .exprStart)
      (hinner : ∀ t ∈ inner, t.kind.isInner) (hskip : s.unread = skipped ++ s'.unread)
      (hskipped : ∀ t ∈ skipped, t.kind.isInner)
      (hend : ∀ t ∈ s'.unread, t.kind = .eof ∧ s'.unread = [t])
      (hproblem : c.problem.isUnscannable = false) : Confined ts (.recovers c s s')
  /-- Between tags something is wrong only at the end, where nothing is skipped. -/
  | ended {c : Complaint} {s s' : State} {t : Token} (hs : s.unread = [t]) (ht : t.kind = .eof)
      (hskip : s'.unread = s.unread) (hproblem : c.problem.isUnscannable = false) :
      Confined ts (.recovers c s s')

/-! ## Places in a source -/

/-- Nothing was complained about that the tokens of a source cannot show. -/
def State.Clean (s : State) : Prop :=
  ∀ c ∈ s.complaints, c.problem.isUnscannable = false

/-- Among the tokens `ts`, `s` stands where a scanner is in this mode. -/
structure State.Scanned (ts : List Token) (mode : ScanMode) (s : State) : Prop where
  ordered : s.Ordered
  behind : s.unread <:+ ts
  follows : mode.Follows s.unread
  clean : s.Clean

/-- `s` stands in a tag of `ts`. -/
structure State.Within (ts : List Token) (s : State) : Prop where
  scanned : s.Scanned ts .tag
  opened : ∃ before opener inner, ts = before ++ opener :: (inner ++ s.unread) ∧
    (opener.kind = .blockStart ∨ opener.kind = .exprStart) ∧ ∀ t ∈ inner, t.kind.isInner

/-- Where something is wrong: in a tag, or at the end. -/
inductive State.Reports (ts : List Token) (c : Complaint) (s : State) : Prop
  | within (h : s.Within ts) (hproblem : c.problem.isUnscannable = false)
  | atEnd {t : Token} (h : s.Scanned ts .text) (hs : s.unread = [t]) (ht : t.kind = .eof)
      (hproblem : c.problem.isUnscannable = false)

section

variable {ts rest : List Token} {s s' : State} {t : Token}

theorem State.Scanned.consume {mode mode' : ScanMode} (h : s.Scanned ts mode)
    (hs : s.unread = t :: rest) (ht : t.kind ≠ .eof) (hrest : mode'.Follows rest) :
    (s.consume t rest).Scanned ts mode' where
  ordered := (h.ordered.consume hs ht).1
  behind := .trans ⟨[t], hs.symm⟩ h.behind
  follows := hrest
  clean := h.clean

/-- Behind the delimiter that opens it, a tag is entered. -/
theorem State.Scanned.enter (h : s.Scanned ts .text) (hs : s.unread = t :: rest)
    (ht : t.kind = .blockStart ∨ t.kind = .exprStart) : (s.consume t rest).Within ts := by
  have hne : t.kind ≠ .eof := by
    rcases ht with ht | ht <;> simp [ht]
  have hfollows := h.follows
  rw [hs] at hfollows
  obtain ⟨before, hbefore⟩ := h.behind
  rw [hs] at hbefore
  exact ⟨h.consume hs hne (hfollows.behind_opener ht), before, t, [], hbefore.symm, ht,
    List.forall_mem_nil _⟩

theorem State.Within.consume (h : s.Within ts) (hs : s.unread = t :: rest) (ht : t.kind.isInner) :
    (s.consume t rest).Within ts := by
  have hne : t.kind ≠ .eof := by
    intro heof
    rw [heof] at ht
    cases ht
  have hone : ∀ u ∈ [t], u.kind.isInner := List.forall_mem_singleton.mpr ht
  have hfollows := h.scanned.follows
  rw [hs] at hfollows
  obtain ⟨before, opener, inner, hplace, hopener, hinner⟩ := h.opened
  refine ⟨h.scanned.consume hs hne (ScanMode.Follows.behind_inner hone hfollows), before, opener,
    inner ++ [t], ?_, hopener, List.forall_mem_append.mpr ⟨hinner, hone⟩⟩
  rw [hplace, hs, List.append_assoc]
  rfl

theorem State.Within.onward (h : s.Within ts) (ho : Scope.tag.Onward s s') : s'.Within ts := by
  obtain ⟨us, hus, hinner'⟩ := ho.ahead
  obtain ⟨cs, hcs, hinTag⟩ := ho.complaints
  obtain ⟨before, opener, inner, hplace, hopener, hinner⟩ := h.opened
  have hfollows := h.scanned.follows
  rw [hus] at hfollows
  refine ⟨⟨ho.ordered, .trans ⟨us, hus.symm⟩ h.scanned.behind,
    ScanMode.Follows.behind_inner hinner' hfollows, ?_⟩, before, opener, inner ++ us, ?_, hopener,
    List.forall_mem_append.mpr ⟨hinner, hinner'⟩⟩
  · unfold State.Clean
    rw [hcs]
    exact List.forall_mem_append.mpr ⟨h.scanned.clean, fun c hc =>
      SyntaxProblem.isUnscannable_of_isInTag (hinTag c hc)⟩
  · rw [hplace, hus, List.append_assoc]

theorem State.Within.closedBy (h : s.Within ts) (hc : s.ClosedBy s') : s'.Scanned ts .text := by
  obtain ⟨us, close, hus, hinner, hclose⟩ := hc.ahead
  obtain ⟨cs, hcs, hinTag⟩ := hc.complaints
  have hfollows := h.scanned.follows
  rw [hus] at hfollows
  refine ⟨hc.onward.ordered, ?_, ?_, ?_⟩
  · exact .trans ⟨us ++ [close], by rw [hus, List.append_assoc]; rfl⟩ h.scanned.behind
  · rcases (ScanMode.Follows.behind_inner hinner hfollows).of_tag with
      ⟨hkind, -⟩ | ⟨-, hrest⟩ | ⟨heof, -⟩
    · rw [isInner_of_isCloser hclose] at hkind
      cases hkind
    · exact hrest
    · rw [heof] at hclose
      cases hclose
  · unfold State.Clean
    rw [hcs]
    exact List.forall_mem_append.mpr ⟨h.scanned.clean, fun c hc =>
      SyntaxProblem.isUnscannable_of_isInTag (hinTag c hc)⟩

end

/-! ## Runs without lists of nodes -/

/-- Run from `s`, `p` reads up to where a list of nodes can go on, or reports something. -/
def Settles (ts : List Token) (s : State) (p : Parser α) : Prop :=
  Ends p s (fun _ s' => s'.Scanned ts .text) fun e s' =>
    s'.Clean ∧ ∀ c, e = .complaint c → s'.Reports ts c

section

variable {ts rest : List Token} {s : State} {t : Token} {p : Parser α}

/-- What is read in a tag ends behind it, or where something is wrong with it. -/
theorem Closes.settles {P : α → State → Prop} (hp : Closes s p P) (h : s.Within ts) :
    Settles ts s p := by
  refine (hp h.scanned.ordered).imp (fun _ _ ⟨hc, _⟩ => h.closedBy hc) ?_
  rintro e s' ⟨ho, hstops⟩
  refine ⟨(h.onward ho).scanned.clean, ?_⟩
  rintro c rfl
  exact .within (h.onward ho) (SyntaxProblem.isUnscannable_of_isInTag hstops)

/-- Behind a tag, only a span is left to be made. -/
theorem Settles.bind_span {f : α → Parser β} (hp : Settles ts s p)
    (hf : ∀ a s', Looks s' (f a) fun _ => True) : Settles ts s (p >>= f) := by
  refine Ends.bind hp fun a s' hs' => Ends.imp (hf a s') ?_ ?_
  · rintro _ _ ⟨rfl, -⟩
    exact hs'
  · rintro e s'' ⟨rfl, he⟩
    refine ⟨hs'.clean, ?_⟩
    rintro c rfl
    exact he.elim

theorem endTag_settles {found : String} (h : s.Scanned ts .text) (hclosing : s.AtClosing found)
    (word : String) : Settles ts s (endTag word) := by
  obtain ⟨t, u, rest, hs, ht, -⟩ := hclosing
  refine Ends.step (advance_eq hs (by simp [ht])) ?_
  exact (endTag_closes word _).settles (h.enter hs (.inl ht))

theorem loopEnd_settles {found : String} (setting : Setting) (opening : Token)
    (header : Option (List String × Expr)) (nodes otherwise : List Node) (h : s.Scanned ts .text)
    (hclosing : s.AtClosing found) :
    Settles ts s (loopEnd setting opening header nodes otherwise) := by
  refine (endTag_settles h hclosing "endfor").bind_span fun _ s' => ?_
  split
  · exact Ends.pure ⟨rfl, trivial⟩
  · exact Ends.bind (spanFrom_looks _ _ s') fun _ _ hs => Ends.pure hs

theorem output_settles (setting : Setting) (h : s.Scanned ts .text) (hs : s.unread = t :: rest)
    (ht : t.kind = .exprStart) : Settles ts s (output setting) := by
  have hne : t.kind ≠ .eof := by simp [ht]
  have htook := (h.ordered.consume hs hne).2
  refine Ends.step (advance_eq hs hne) ?_
  exact (output_closes setting _ htook.start_le_reached).settles (h.enter hs (.inr ht))

/-- A statement that opens no block. -/
theorem statement_settles {setting : Setting} {opening : Token} {fuel : Nat} (h : s.Within ts)
    (hs : s.unread = t :: rest) (hopen : opening.span.start.offset ≤ s.reached)
    (hif : ¬t.isKeyword "if") (hfor : ¬t.isKeyword "for") (hdef : ¬t.isKeyword "macro")
    (hcall : ¬t.isKeyword "call") :
    Settles ts s (Parser.statement setting opening (fuel + 1)) := by
  have hcomplain : ∀ {problem : SyntaxProblem} {span : Span}, problem.isUnscannable = false →
      Settles ts s (complain problem span : Parser (Option Node)) := by
    intro problem span hproblem
    refine Ends.throw ⟨h.scanned.clean, ?_⟩
    rintro _ ⟨⟩
    exact .within h hproblem
  rw [Parser.statement]
  refine Ends.step (peek_eq hs) ?_
  split
  · next hkind =>
      have hinner : t.kind.isInner := by
        rw [hkind]
        rfl
      have hword : ∀ {word : String}, t.value = word → t.isKeyword word := by
        rintro _ rfl
        simp [Token.isKeyword, hkind]
      split
      · next hvalue => exact absurd (hword hvalue) hif
      · next hvalue => exact absurd (hword hvalue) hfor
      · next hvalue => exact absurd (hword hvalue) hdef
      · next hvalue => exact absurd (hword hvalue) hcall
      · exact Ends.map ((inclusion_closes hs hinner setting hopen).settles h) fun _ _ hs => hs
      · exact Ends.map ((assignment_closes hs hinner setting hopen).settles h) fun _ _ hs => hs
      · exact Ends.map ((assignment_closes hs hinner setting hopen).settles h) fun _ _ hs => hs
      · split <;> exact hcomplain rfl
  · exact hcomplain rfl
  · exact hcomplain rfl

theorem text_settles (setting : Setting) (h : s.Scanned ts .text) (hs : s.unread = t :: rest)
    (ht : t.kind = .text) :
    Ends (text setting) s (fun _ s' => s'.Scanned ts .text) fun e s' => s'.Clean ∧ e.Silent := by
  have hfollows := h.follows
  rw [hs] at hfollows
  have hscanned := h.consume hs (by simp [ht]) (hfollows.behind_text ht)
  refine Ends.step (advance_eq hs (by simp [ht])) (Ends.bind (Ends.imp (peek_looks _)
    (fun _ _ h => h) fun _ _ ⟨hs', he⟩ => ⟨hs' ▸ hscanned.clean, he⟩) ?_)
  rintro following _ ⟨rfl, -⟩
  refine Ends.step rfl (Ends.step rfl (Ends.pure ?_))
  exact ⟨⟨hscanned.ordered.apart, hscanned.ordered.forward, hscanned.ordered.behind,
    hscanned.ordered.ends⟩, hscanned.behind, hscanned.follows, hscanned.clean⟩

/-- The parts of a comment are there, unless a fault ends the tokens before. -/
theorem comment_settles (h : s.Scanned ts .text) (hs : s.unread = t :: rest)
    (ht : t.kind = .commentStart) :
    Ends comment s (fun _ s' => s'.Scanned ts .text) fun e s' => s'.Clean ∧ e.Silent := by
  have hfollows := h.follows
  rw [hs] at hfollows
  obtain ⟨p, hrest⟩ := hfollows.behind_commentStart ht
  have hopened := h.consume hs (by simp [ht]) hrest
  refine Ends.step (advance_eq hs (by simp [ht])) ?_
  refine Ends.bind (Ends.imp (expect_ends fun u hu => ?_) (fun _ _ h => h)
    fun _ _ ⟨hs', he⟩ => ⟨hs' ▸ hopened.clean, he⟩) ?_
  · obtain ⟨more, rfl⟩ := List.head?_eq_some_iff.mp hu
    exact hrest.of_comment.1
  rintro body s₁ ⟨hbody, more, rfl, hs₁⟩
  obtain ⟨-, marker, hmore⟩ := hrest.of_comment
  obtain rfl := hs₁ nofun
  have hread := hopened.consume rfl (by simp [hbody]) hmore
  refine Ends.bind (Ends.imp (expect_ends fun u hu => ?_) (fun _ _ h => h)
    fun _ _ ⟨hs', he⟩ => ⟨hs' ▸ hread.clean, he⟩) ?_
  · obtain ⟨more', rfl⟩ := List.head?_eq_some_iff.mp hu
    exact hmore.of_commentEnd.1
  rintro close s₂ ⟨hclose, more', rfl, hs₂⟩
  obtain rfl := hs₂ nofun
  exact Ends.pure (hread.consume rfl (by simp [hclose]) hmore.of_commentEnd.2)

end

/-! ## Traced runs -/

/-- Run from `s`, `q` writes down what it should, and `Q` holds of its result, or `E` of the
complaint it stops at. -/
def Confines (ts : List Token) (s : State) (q : Traced α) (Q : α → State → Prop)
    (E : Complaint → State → Prop) : Prop :=
  ∀ log, (∀ e ∈ log, Event.Confined ts e) →
    Ends q (s, log) (fun a x => (∀ e ∈ x.2, Event.Confined ts e) ∧ Q a x.1)
      fun e x => (∀ e ∈ x.2, Event.Confined ts e) ∧ x.1.Clean ∧ ∀ c, e = .complaint c → E c x.1

namespace Confines

variable {ts rest : List Token} {s : State} {t : Token} {p : Parser α} {q : Traced α}
  {g : α → Traced β} {P : α → State → Prop} {Q : β → State → Prop} {E : Complaint → State → Prop}

theorem imp {Q' : α → State → Prop} {E' : Complaint → State → Prop} (h : Confines ts s q P E)
    (hQ : ∀ a s', P a s' → Q' a s') (hE : ∀ c s', E c s' → E' c s') : Confines ts s q Q' E' :=
  fun log hlog => (h log hlog).imp (fun a x ⟨hx, ha⟩ => ⟨hx, hQ a x.1 ha⟩)
    fun _ x ⟨hx, hclean, he⟩ => ⟨hx, hclean, fun c hc => hE c x.1 (he c hc)⟩

theorem pure {b : β} (h : Q b s) : Confines ts s (Pure.pure b) Q E :=
  fun _ hlog => ⟨hlog, h⟩

theorem outOfFuel (hs : s.Clean) : Confines ts s (throw .outOfFuel : Traced β) Q E :=
  fun _ hlog => ⟨hlog, hs, by rintro _ ⟨⟩⟩

theorem bind (h : Confines ts s q P E) (hg : ∀ a s', P a s' → Confines ts s' (g a) Q E) :
    Confines ts s (q >>= g) Q E :=
  fun log hlog => Ends.bind (h log hlog) fun a x ⟨hx, ha⟩ => hg a x.1 ha x.2 hx

theorem lift (h : Ends p s P fun e s' => s'.Clean ∧ ∀ c, e = .complaint c → E c s') :
    Confines ts s (Traced.lift p) P E := by
  intro log hlog
  unfold Ends at *
  unfold Traced.lift
  cases hp : p s with
  | ok a s' =>
      rw [hp] at h
      simpa only [hp] using ⟨hlog, h⟩
  | error e s' =>
      rw [hp] at h
      simpa only [hp] using ⟨hlog, h⟩

theorem lift_silent (h : Ends p s P fun e s' => s'.Clean ∧ e.Silent) :
    Confines ts s (Traced.lift p) P E := by
  refine lift (h.imp (fun _ _ h => h) ?_)
  rintro e s' ⟨hs', he⟩
  refine ⟨hs', ?_⟩
  rintro c rfl
  exact he.elim

theorem complain {problem : SyntaxProblem} {span : Span} (hs : s.Clean) (h : E ⟨problem, span⟩ s) :
    Confines ts s (Traced.lift (Parser.complain problem span)) Q E := by
  refine lift (Ends.throw ⟨hs, ?_⟩)
  rintro _ ⟨⟩
  exact h

theorem looks {P : α → Prop} (h : Looks s p P) (hs : s.Clean) :
    Confines ts s (Traced.lift p) (fun a s' => s' = s ∧ P a) E :=
  lift_silent (Ends.imp h (fun _ _ h => h) fun _ _ ⟨hs', he⟩ => ⟨hs' ▸ hs, he⟩)

theorem peek {g : Token → Traced β} (hs : s.Clean)
    (h : ∀ t rest, s.unread = t :: rest → Confines ts s (g t) Q E) :
    Confines ts s (Traced.lift Parser.peek >>= g) Q E := by
  refine bind (looks (peek_looks s) hs) ?_
  rintro t _ ⟨rfl, ht⟩
  obtain ⟨rest, hs⟩ := List.head?_eq_some_iff.mp ht
  exact h t rest hs

theorem advance {g : Token → Traced β} (hs : s.unread = t :: rest) (ht : t.kind ≠ .eof)
    (h : Confines ts (s.consume t rest) (g t) Q E) :
    Confines ts s (Traced.lift Parser.advance >>= g) Q E := by
  refine bind (P := fun u s' => u = t ∧ s' = s.consume t rest) (lift ?_) ?_
  · unfold Ends
    rw [advance_eq hs ht]
    exact ⟨rfl, rfl⟩
  · rintro _ _ ⟨rfl, rfl⟩
    exact h

theorem write {e : Event} {q : Traced β} (he : e.Confined ts) (h : Confines ts s q Q E) :
    Confines ts s (Traced.write e >>= fun _ => q) Q E :=
  fun log hlog => h (log ++ [e])
    (List.forall_mem_append.mpr ⟨hlog, List.forall_mem_singleton.mpr he⟩)

/-- What is known of the parser's own run. -/
theorem and {P' : α → State → Prop} (h : Confines ts s q P E) (he : Traced.Erases q p)
    (hp : Ends p s P' fun _ _ => True) : Confines ts s q (fun a s' => P a s' ∧ P' a s') E :=
  fun log hlog => ((h log hlog).and (he.ends hp)).imp
    (fun _ _ ⟨⟨hx, ha⟩, ha'⟩ => ⟨hx, ha, ha'⟩) fun _ _ ⟨he, _⟩ => he

end Confines

section

variable {ts : List Token} {s : State} {c : Complaint}

theorem State.Clean.add {s' : State} (h : s.Clean)
    (hcomplaints : s'.complaints = s.complaints ++ [c])
    (hproblem : c.problem.isUnscannable = false) : s'.Clean := by
  unfold State.Clean
  rw [hcomplaints]
  exact List.forall_mem_append.mpr ⟨h, List.forall_mem_singleton.mpr hproblem⟩

/-- Behind what was skipped, reading goes on between tags. -/
theorem State.Scanned.resume {mode : ScanMode} {s' : State} (h : s.Scanned ts mode)
    (ho : Scope.any.Onward s s') (hfollows : ScanMode.text.Follows s'.unread)
    (hcomplaints : s'.complaints = s.complaints ++ [c])
    (hproblem : c.problem.isUnscannable = false) : s'.Scanned ts .text := by
  obtain ⟨us, hus, -⟩ := ho.ahead
  exact ⟨ho.ordered, .trans ⟨us, hus.symm⟩ h.behind, hfollows,
    h.clean.add hcomplaints hproblem⟩

/-- Without a closing delimiter, recovering leads to the end. -/
theorem recover_unclosed {us rest : List Token} (ho : s.Ordered) (hs : s.unread = us ++ rest)
    (hinner : ∀ t ∈ us, t.kind.isInner) (hend : ∀ t ∈ rest.head?, t.kind = .eof) :
    Ends (recover c) s (fun _ s' => Scope.any.Onward s s' ∧ s'.unread = rest ∧
      s'.complaints = s.complaints ++ [c])
      fun e s' => e.Silent ∧ s'.unread = rest ∧ s'.complaints = s.complaints ++ [c] := by
  have hskip : Ends (recover c) s
      (fun _ s' => s'.unread = rest ∧ s'.complaints = s.complaints ++ [c])
      fun _ s' => s'.unread = rest ∧ s'.complaints = s.complaints ++ [c] :=
    Ends.step rfl (skipTag_unclosed hs hinner hend)
  have hruns : Runs s (recover c) fun _ _ => True := Ends.step rfl (skipTag_runs _)
  exact ((hskip.and hruns).and (recover_moves c s ho)).imp
    (fun _ _ ⟨⟨h, _⟩, honward, _⟩ => ⟨honward, h⟩) fun _ _ ⟨⟨h, he⟩, _⟩ => ⟨he, h⟩

/-- Recovering in a tag skips what is left of it, and nothing else. -/
theorem recover_within (h : s.Within ts) (hproblem : c.problem.isUnscannable = false) :
    Ends (recover c) s (fun _ s' => s'.Scanned ts .text ∧ (Event.recovers c s s').Confined ts)
      fun e s' => (s'.Clean ∧ e.Silent) ∧ (Event.recovers c s s').Confined ts := by
  obtain ⟨before, opener, inner, hplace, hopener, hinner⟩ := h.opened
  obtain ⟨us, rest, hs, hus, hrest⟩ := h.scanned.follows.tag_cut
  rcases hrest with ⟨close, more, rfl, hclose, hmore⟩ | hrest
  · have hcloser : close.kind.isCloser := by
      rcases hclose with hclose | hclose <;> rw [hclose] <;> rfl
    refine (recover_closes c h.scanned.ordered ⟨us, close, hs, hus, hcloser⟩).imp ?_
      fun _ _ => False.elim
    rintro - s' ⟨ho, rfl, hcomplaints⟩
    exact ⟨h.scanned.resume ho hmore hcomplaints hproblem,
      .closed hplace hopener hinner hs hus hclose hproblem⟩
  · have hhead : ∀ t ∈ rest.head?, t.kind = .eof :=
      fun t ht => (hrest t (List.mem_of_mem_head? ht)).1
    refine (recover_unclosed h.scanned.ordered hs hus hhead).imp ?_ ?_
    · rintro - s' ⟨ho, rfl, hcomplaints⟩
      have hend : ScanMode.text.Follows s'.unread := by
        cases hs' : s'.unread with
        | nil => trivial
        | cons t more =>
            obtain ⟨heof, hone⟩ := hrest t (by simp [hs'])
            rw [hs'] at hone
            rw [hone]
            exact ⟨.finished, heof ▸ .endOfText, trivial⟩
      exact ⟨h.scanned.resume ho hend hcomplaints hproblem,
        .unclosed hplace hopener hinner hs hus hrest hproblem⟩
    · rintro e s' ⟨he, rfl, hcomplaints⟩
      exact ⟨⟨h.scanned.clean.add hcomplaints hproblem, he⟩,
        .unclosed hplace hopener hinner hs hus hrest hproblem⟩

/-- At the end, nothing is skipped. -/
theorem recover_atEnd {t : Token} (h : s.Scanned ts .text) (hs : s.unread = [t])
    (ht : t.kind = .eof) (hproblem : c.problem.isUnscannable = false) :
    Ends (recover c) s (fun _ s' => s'.Scanned ts .text ∧ (Event.recovers c s s').Confined ts)
      fun e s' => (s'.Clean ∧ e.Silent) ∧ (Event.recovers c s s').Confined ts := by
  refine (recover_unclosed h.ordered hs (List.forall_mem_nil _) (by simpa using ht)).imp ?_ ?_
  · rintro - s' ⟨ho, hs', hcomplaints⟩
    have hsame := hs'.trans hs.symm
    exact ⟨h.resume ho (hsame ▸ h.follows) hcomplaints hproblem, .ended hs ht hsame hproblem⟩
  · rintro e s' ⟨he, hs', hcomplaints⟩
    exact ⟨⟨h.clean.add hcomplaints hproblem, he⟩, .ended hs ht (hs'.trans hs.symm) hproblem⟩

theorem recover_confines {E : Complaint → State → Prop} (h : s.Reports ts c) :
    Confines ts s (Traced.recover c) (fun _ s' => s'.Scanned ts .text) E := by
  have hends : Ends (recover c) s
      (fun _ s' => s'.Scanned ts .text ∧ (Event.recovers c s s').Confined ts)
      fun e s' => (s'.Clean ∧ e.Silent) ∧ (Event.recovers c s s').Confined ts := by
    cases h with
    | within h hproblem => exact recover_within h hproblem
    | atEnd h hs ht hproblem => exact recover_atEnd h hs ht hproblem
  intro log hlog
  have hboth : ∀ {e : Event}, e.Confined ts → ∀ e' ∈ log ++ [e], Event.Confined ts e' :=
    fun he => List.forall_mem_append.mpr ⟨hlog, List.forall_mem_singleton.mpr he⟩
  unfold Ends at *
  unfold Traced.recover
  cases hrun : recover c s with
  | ok a s' =>
      rw [hrun] at hends
      simpa only [hrun] using ⟨hboth hends.2, hends.1⟩
  | error e s' =>
      rw [hrun] at hends
      refine ⟨?_, ?_⟩
      · simpa only [hrun] using hboth hends.2
      · refine ⟨hends.1.1, ?_⟩
        rintro c rfl
        exact hends.1.2.elim

/-- Whatever is reported in a tag, reading goes on behind it. -/
theorem Confines.recovering {q : Traced α} {P : α → State → Prop} {E : Complaint → State → Prop}
    (h : Confines ts s q P fun c s' => s'.Reports ts c)
    (hP : ∀ a s', P a s' → s'.Scanned ts .text) :
    Confines ts s (Traced.recovering q) (fun _ s' => s'.Scanned ts .text) E := by
  intro log hlog
  refine Ends.tryCatch (Ends.map (h log hlog) fun a x ⟨hx, ha⟩ => ⟨hx, hP a x.1 ha⟩) ?_
  rintro e x ⟨hx, hclean, he⟩
  cases e with
  | complaint c =>
      have hgo : Confines ts x.1 (do Traced.recover c; return (none : Option α))
          (fun _ s' => s'.Scanned ts .text) E :=
        Confines.bind (recover_confines (he c rfl)) fun _ _ hs => Confines.pure hs
      exact hgo x.2 hx
  | _ => exact Ends.throw ⟨hx, hclean, by rintro _ ⟨⟩⟩

theorem recovering_closes {p : Parser α} {P : α → State → Prop} {E : Complaint → State → Prop}
    (hp : Closes s p P) (h : s.Within ts) :
    Confines ts s (Traced.recovering (Traced.lift p)) (fun _ s' => s'.Scanned ts .text) E :=
  Confines.recovering (.lift (hp.settles h)) fun _ _ hs => hs

theorem nextArm_confines {b : BranchSoFar} {t : Token} {rest : List Token}
    {E : Complaint → State → Prop} (h : s.Within ts) (hs : s.unread = t :: rest)
    (ht : t.kind = .keyword) :
    Confines ts s (Traced.nextArm b) (fun _ s' => s'.Scanned ts .text) E := by
  have hinner : t.kind.isInner := by
    rw [ht]
    rfl
  refine Confines.peek h.scanned.clean fun t' rest' hs' => ?_
  obtain ⟨rfl, rfl⟩ := List.cons.inj (hs.symm.trans hs')
  split
  · exact Confines.bind (recover_confines (.within h rfl)) fun _ _ hs => Confines.pure hs
  · split
    · refine Confines.advance hs (by simp [ht]) ?_
      have hend : Closes (s.consume t rest) expectBlockEnd fun _ _ => True := by
        have hclose : Closes (s.consume t rest) (expectBlockEnd >>= Pure.pure) fun _ _ => True :=
          Closes.close rfl rfl fun _ _ _ _ => Stays.pure trivial
        rwa [bind_pure] at hclose
      exact Confines.bind (recovering_closes hend (h.consume hs hinner)) fun _ _ hs =>
        Confines.pure hs
    · exact Confines.bind (recovering_closes (condition_closes hs hinner) h) fun _ _ hs =>
        Confines.pure hs

end

/-! ## One amount of fuel -/

/-- What the functions write down, and where they stop. -/
structure TemplatesConfine (ts : List Token) (setting : Setting) (fuel : Nat) : Prop where
  nodesFrom : ∀ closers nodes s, s.Scanned ts .text →
    Confines ts s (Traced.nodesFrom setting closers fuel nodes) (fun _ s' => s'.Scanned ts .text)
      fun _ _ => False
  tag : ∀ s t rest, s.Scanned ts .text → s.unread = t :: rest →
    t.kind = .blockStart ∨ t.kind = .exprStart →
    Confines ts s (Traced.tag setting fuel) (fun _ s' => s'.Scanned ts .text)
      fun c s' => s'.Reports ts c
  statement : ∀ opening s, s.Within ts → opening.span.start.offset ≤ s.reached →
    Confines ts s (Traced.statement setting opening fuel) (fun _ s' => s'.Scanned ts .text)
      fun c s' => s'.Reports ts c
  body : ∀ opening construct closers s, s.Scanned ts .text →
    Confines ts s (Traced.body setting opening construct closers fuel)
      (fun r s' => s'.Scanned ts .text ∧ s'.AtClosing r.2) fun c s' => s'.Reports ts c
  branch : ∀ opening s t rest, s.Within ts → s.unread = t :: rest → t.kind = .keyword →
    Confines ts s (Traced.branch setting opening fuel) (fun _ s' => s'.Scanned ts .text)
      fun c s' => s'.Reports ts c
  armsFrom : ∀ opening b s, s.Scanned ts .text →
    Confines ts s (Traced.armsFrom setting opening fuel b) (fun _ s' => s'.Scanned ts .text)
      fun c s' => s'.Reports ts c
  loop : ∀ opening s t rest, s.Within ts → s.unread = t :: rest → t.kind = .keyword →
    Confines ts s (Traced.loop setting opening fuel) (fun _ s' => s'.Scanned ts .text)
      fun c s' => s'.Reports ts c
  definition : ∀ opening s t rest, s.Within ts → s.unread = t :: rest → t.kind = .keyword →
    Confines ts s (Traced.definition setting opening fuel) (fun _ s' => s'.Scanned ts .text)
      fun c s' => s'.Reports ts c
  callBlock : ∀ opening s t rest, s.Within ts → s.unread = t :: rest → t.kind = .keyword →
    Confines ts s (Traced.callBlock setting opening fuel) (fun _ s' => s'.Scanned ts .text)
      fun c s' => s'.Reports ts c

theorem templatesConfine_zero (ts : List Token) (setting : Setting) :
    TemplatesConfine ts setting 0 where
  nodesFrom closers nodes s h := by
    rw [Traced.nodesFrom]
    exact .outOfFuel h.clean
  tag s t rest h _ _ := by
    rw [Traced.tag]
    exact .outOfFuel h.clean
  statement opening s h _ := by
    rw [Traced.statement]
    exact .outOfFuel h.scanned.clean
  body opening construct closers s h := by
    rw [Traced.body]
    exact .outOfFuel h.clean
  branch opening s t rest h _ _ := by
    rw [Traced.branch]
    exact .outOfFuel h.scanned.clean
  armsFrom opening b s h := by
    rw [Traced.armsFrom]
    exact .outOfFuel h.clean
  loop opening s t rest h _ _ := by
    rw [Traced.loop]
    exact .outOfFuel h.scanned.clean
  definition opening s t rest h _ _ := by
    rw [Traced.definition]
    exact .outOfFuel h.scanned.clean
  callBlock opening s t rest h _ _ := by
    rw [Traced.callBlock]
    exact .outOfFuel h.scanned.clean

section

variable {ts : List Token} {setting : Setting} {fuel : Nat}
  (ih : TemplatesConfine ts setting fuel)

include ih

/-- A list of nodes goes on between tags, so a text, a comment, a tag or the end is next. -/
theorem nodesFrom_confines (closers : List String) (nodes : List Node) {s : State}
    (h : s.Scanned ts .text) :
    Confines ts s (Traced.nodesFrom setting closers (fuel + 1) nodes)
      (fun _ s' => s'.Scanned ts .text) fun _ _ => False := by
  rw [Traced.nodesFrom]
  refine Confines.peek h.clean fun t rest hs => ?_
  have hfollows := h.follows
  rw [hs] at hfollows
  have hkinds := hfollows.of_text
  refine Confines.write (.looks (by tauto)) ?_
  split
  · exact Confines.pure h
  · next ht =>
      exact Confines.bind (.lift_silent (text_settles setting h hs ht)) fun node s' hs' =>
        ih.nodesFrom closers _ s' hs'
  · next ht =>
      exact Confines.bind (.lift_silent (comment_settles h hs ht)) fun _ s' hs' =>
        ih.nodesFrom closers nodes s' hs'
  · next heof htext hcomment =>
      refine Confines.bind (.looks (closingWord?_looks closers t s) h.clean) ?_
      rintro word s' ⟨rfl, -⟩
      cases word with
      | some word => exact Confines.pure h
      | none =>
          have htag := ih.tag s' t rest h hs (by tauto)
          exact Confines.bind (htag.recovering fun _ _ hs' => hs') fun node s'' hs' =>
            ih.nodesFrom closers _ s'' hs'

theorem tag_confines {s : State} {t : Token} {rest : List Token} (h : s.Scanned ts .text)
    (hs : s.unread = t :: rest) (ht : t.kind = .blockStart ∨ t.kind = .exprStart) :
    Confines ts s (Traced.tag setting (fuel + 1)) (fun _ s' => s'.Scanned ts .text)
      fun c s' => s'.Reports ts c := by
  have hne : t.kind ≠ .eof := by
    rcases ht with ht | ht <;> simp [ht]
  rw [Traced.tag]
  refine Confines.peek h.clean fun t' rest' hs' => ?_
  obtain ⟨rfl, rfl⟩ := List.cons.inj (hs.symm.trans hs')
  split
  · next hexpr =>
      exact Confines.bind (.lift (output_settles setting h hs hexpr)) fun _ _ hs =>
        Confines.pure hs
  · have htook := (h.ordered.consume hs hne).2
    exact Confines.advance hs hne (ih.statement t _ (h.enter hs ht) htook.start_le_reached)
  · next hexpr hblock => tauto

theorem statement_confines (opening : Token) {s : State} (h : s.Within ts)
    (hopen : opening.span.start.offset ≤ s.reached) :
    Confines ts s (Traced.statement setting opening (fuel + 1)) (fun _ s' => s'.Scanned ts .text)
      fun c s' => s'.Reports ts c := by
  rw [Traced.statement]
  refine Confines.peek h.scanned.clean fun t rest hs => ?_
  split
  · next hword => exact ih.branch opening s t rest h hs (Token.kind_eq_of_isKeyword hword)
  · next hif =>
    split
    · next hword => exact ih.loop opening s t rest h hs (Token.kind_eq_of_isKeyword hword)
    · next hfor =>
      split
      · next hword => exact ih.definition opening s t rest h hs (Token.kind_eq_of_isKeyword hword)
      · next hdef =>
        split
        · next hword => exact ih.callBlock opening s t rest h hs (Token.kind_eq_of_isKeyword hword)
        · next hcall => exact .lift (statement_settles h hs hopen hif hfor hdef hcall)

theorem body_confines (opening : Token) (construct : String) (closers : List String) {s : State}
    (h : s.Scanned ts .text) :
    Confines ts s (Traced.body setting opening construct closers (fuel + 1))
      (fun r s' => s'.Scanned ts .text ∧ s'.AtClosing r.2) fun c s' => s'.Reports ts c := by
  have hnodes := (ih.nodesFrom closers [] s h).and
    ((Traced.templatesErase setting fuel).nodesFrom closers [])
    (nodesFrom_stops setting closers fuel [] s)
  rw [Traced.body]
  refine Confines.bind (hnodes.imp (fun _ _ h => h) fun _ _ => False.elim) ?_
  rintro ⟨nodes, word⟩ s' ⟨hs', hstops⟩
  cases word with
  | some word => exact Confines.pure ⟨hs', hstops.2⟩
  | none =>
      obtain ⟨t, rest, hunread, heof⟩ := hstops
      have hfollows := hs'.follows
      rw [hunread] at hfollows
      have hrest : rest = [] := by
        obtain ⟨mode', hturns, hrest⟩ := hfollows
        rw [heof] at hturns
        cases hturns.finished_of_eof
        exact hrest.of_finished
      rw [hrest] at hunread
      exact Confines.complain hs'.clean (.atEnd hs' hunread heof rfl)

theorem branch_confines (opening : Token) {s : State} {t : Token} {rest : List Token}
    (h : s.Within ts) (hs : s.unread = t :: rest) (ht : t.kind = .keyword) :
    Confines ts s (Traced.branch setting opening (fuel + 1)) (fun _ s' => s'.Scanned ts .text)
      fun c s' => s'.Reports ts c := by
  rw [Traced.branch]
  exact Confines.bind (recovering_closes (condition_closes hs (by rw [ht]; rfl)) h) fun _ s' hs' =>
    ih.armsFrom opening _ s' hs'

theorem armsFrom_confines (opening : Token) (b : BranchSoFar) {s : State}
    (h : s.Scanned ts .text) :
    Confines ts s (Traced.armsFrom setting opening (fuel + 1) b) (fun _ s' => s'.Scanned ts .text)
      fun c s' => s'.Reports ts c := by
  rw [Traced.armsFrom]
  refine Confines.bind (ih.body opening "if" _ s h) ?_
  rintro ⟨nodes, word⟩ s₁ ⟨hs₁, hclosing⟩
  refine Confines.bind (.looks (spanFrom_looks _ _ s₁) hs₁.clean) ?_
  rintro span _ ⟨rfl, -⟩
  dsimp only
  split
  · refine Confines.lift ((endTag_settles hs₁ hclosing "endif").bind_span fun _ s' => ?_)
    split
    · exact Ends.pure ⟨rfl, trivial⟩
    · exact Ends.bind (spanFrom_looks _ _ s') fun _ _ hs => Ends.pure hs
  · obtain ⟨t, u, rest, hunread, ht, hu, -⟩ := hclosing
    refine Confines.advance hunread (by simp [ht]) ?_
    exact Confines.bind (nextArm_confines (hs₁.enter hunread (.inl ht)) rfl hu) fun b' s' hs' =>
      ih.armsFrom opening b' s' hs'

theorem loop_confines (opening : Token) {s : State} {t : Token} {rest : List Token}
    (h : s.Within ts) (hs : s.unread = t :: rest) (ht : t.kind = .keyword) :
    Confines ts s (Traced.loop setting opening (fuel + 1)) (fun _ s' => s'.Scanned ts .text)
      fun c s' => s'.Reports ts c := by
  rw [Traced.loop]
  refine Confines.bind (recovering_closes (loopHeader_closes hs (by rw [ht]; rfl)) h) ?_
  intro header s₁ hs₁
  refine Confines.bind (ih.body opening "for" _ s₁ hs₁) ?_
  rintro ⟨nodes, word⟩ s₂ ⟨hs₂, hclosing⟩
  dsimp only
  split
  · refine Confines.bind (.lift (endTag_settles hs₂ hclosing "else")) fun _ s₃ hs₃ => ?_
    refine Confines.bind (ih.body opening "for" _ s₃ hs₃) ?_
    rintro ⟨otherwise, _⟩ s₄ ⟨hs₄, hclosing⟩
    exact .lift (loopEnd_settles setting opening header nodes otherwise hs₄ hclosing)
  · exact .lift (loopEnd_settles setting opening header nodes [] hs₂ hclosing)

theorem definition_confines (opening : Token) {s : State} {t : Token} {rest : List Token}
    (h : s.Within ts) (hs : s.unread = t :: rest) (ht : t.kind = .keyword) :
    Confines ts s (Traced.definition setting opening (fuel + 1))
      (fun _ s' => s'.Scanned ts .text) fun c s' => s'.Reports ts c := by
  rw [Traced.definition]
  refine Confines.bind
    (recovering_closes (definitionHeader_closes hs (by rw [ht]; rfl) setting) h) ?_
  intro header s₁ hs₁
  refine Confines.bind (ih.body opening "macro" _ s₁ hs₁) ?_
  rintro ⟨nodes, word⟩ s₂ ⟨hs₂, hclosing⟩
  refine .lift ((endTag_settles hs₂ hclosing "endmacro").bind_span fun _ s₃ => ?_)
  split
  · exact Ends.pure ⟨rfl, trivial⟩
  · exact Ends.bind (spanFrom_looks _ _ s₃) fun _ _ hs => Ends.pure hs

theorem callBlock_confines (opening : Token) {s : State} {t : Token} {rest : List Token}
    (h : s.Within ts) (hs : s.unread = t :: rest) (ht : t.kind = .keyword) :
    Confines ts s (Traced.callBlock setting opening (fuel + 1))
      (fun _ s' => s'.Scanned ts .text) fun c s' => s'.Reports ts c := by
  rw [Traced.callBlock]
  refine Confines.bind (recovering_closes (callHeader_closes hs (by rw [ht]; rfl)) h) ?_
  intro header s₁ hs₁
  refine Confines.bind (ih.body opening "call" _ s₁ hs₁) ?_
  rintro ⟨nodes, word⟩ s₂ ⟨hs₂, hclosing⟩
  refine .lift ((endTag_settles hs₂ hclosing "endcall").bind_span fun _ s₃ => ?_)
  split
  · exact Ends.pure ⟨rfl, trivial⟩
  · exact Ends.bind (spanFrom_looks _ _ s₃) fun _ _ hs => Ends.pure hs

end

/-! ## Every amount of fuel -/

theorem templatesConfine (ts : List Token) (setting : Setting) :
    ∀ fuel, TemplatesConfine ts setting fuel
  | 0 => templatesConfine_zero ts setting
  | fuel + 1 =>
      have ih := templatesConfine ts setting fuel
      { nodesFrom := fun closers nodes _ h => nodesFrom_confines ih closers nodes h
        tag := fun _ _ _ h hs ht => tag_confines ih h hs ht
        statement := fun opening _ h hopen => statement_confines ih opening h hopen
        body := fun opening construct closers _ h => body_confines ih opening construct closers h
        branch := fun opening _ _ _ h hs ht => branch_confines ih opening h hs ht
        armsFrom := fun opening b _ h => armsFrom_confines ih opening b h
        loop := fun opening _ _ _ h hs ht => loop_confines ih opening h hs ht
        definition := fun opening _ _ _ h hs ht => definition_confines ih opening h hs ht
        callBlock := fun opening _ _ _ h hs ht => callBlock_confines ih opening h hs ht }

/-- A template is read without a complaint that stops the parser. -/
theorem template_confines (setting : Setting) {ts : List Token} {s : State}
    (h : s.Scanned ts .text) :
    Confines ts s (Traced.template setting) (fun _ s' => s'.Clean) fun _ _ => False := by
  have hbody : Confines ts s (Traced.templateBody setting) (fun _ s' => s'.Clean)
      fun _ _ => False := by
    intro log hlog
    have hnodes := (templatesConfine ts setting (templateFuel s.unread.length)).nodesFrom [] [] s h
      log hlog
    unfold Ends Traced.templateBody at *
    cases hrun : Traced.nodesFrom setting [] (templateFuel s.unread.length) [] (s, log) with
    | ok r x =>
        rw [hrun] at hnodes
        exact ⟨hnodes.1, hnodes.2.clean⟩
    | error e x =>
        rw [hrun] at hnodes
        cases e with
        | lexical fault => exact ⟨hnodes.1, hnodes.2.1.add rfl rfl⟩
        | _ => exact hnodes
  refine Confines.bind hbody fun nodes s' hs' => ?_
  refine Confines.bind (.looks (spanFrom_looks _ _ s') hs') ?_
  rintro span _ ⟨rfl, -⟩
  exact Confines.pure hs'

end Parser

/-- Whatever is wrong with a source, what the parser skips to get on lies in the tag in which it
found something wrong, and reading nodes goes on at texts, comments, tags and the end only. So the
complaints about anything else never come up: none of them is recovered from, stops the parser or is
reported. -/
theorem parse_confined {delimiters : Delimiters} (hd : delimiters.check = .ok ())
    (setting : Parser.Setting) (source : String) :
    (Parser.Traced.parse setting delimiters source).1 = parse setting delimiters source ∧
      (∀ e ∈ (Parser.Traced.parse setting delimiters source).2,
        e.Confined (tokenize source setting.unit delimiters).1) ∧
      (∀ c, parse setting delimiters source ≠ .error (.complaint c)) ∧
      ∀ p, parse setting delimiters source = .ok p →
        ∀ c ∈ p.complaints, c.problem.isUnscannable = false := by
  obtain ⟨⟨ts, fault⟩, htokens⟩ : ∃ r, tokenize source setting.unit delimiters = r := ⟨_, rfl⟩
  have ho := Parser.State.Ordered.of_tokenize hd source setting.unit
  have hfollows := tokenize_follows hd source setting.unit
  have hsame := Parser.Traced.parse_fst setting delimiters source
  rw [← hsame]
  unfold Parser.Traced.parse at *
  rw [htokens] at *
  have hscanned : Parser.State.Scanned ts .text { unread := ts, fault := fault } :=
    ⟨ho, List.suffix_refl ts, hfollows, List.forall_mem_nil _⟩
  have hends := Parser.template_confines setting hscanned [] (List.forall_mem_nil _)
  dsimp only at *
  refine ⟨rfl, ?_⟩
  split
  · next t s log hrun =>
      obtain ⟨hlog, hclean⟩ := hends.of_ok hrun
      refine ⟨hlog, nofun, ?_⟩
      rintro _ ⟨⟩
      exact hclean
  · next stop s log hrun =>
      obtain ⟨hlog, -, hnone⟩ := hends.of_error hrun
      refine ⟨hlog, ?_, nofun⟩
      rintro c ⟨⟩
      exact hnone c rfl

/-- What is recovered from, and how many tokens that skips. -/
def Parser.Event.skipped? : Event → Option (SyntaxProblem × Nat)
  | .looks _ => none
  | .recovers c s s' => some (c.problem, s.unread.length - s'.unread.length)

/-- A header without a condition, an output with too much in it, a second arm for all other cases
and a tag that is never closed, in a block that is never closed. -/
theorem confined_of_broken_tags :
    let source := "\x7b% if %\x7da\x7b\x7b b c \x7d\x7d\x7b% else %\x7d" ++
      "\x7b% else d %\x7d\x7b# e #\x7d\x7b% set"
    let events := (Parser.Traced.parse ⟨"page", .minimize⟩ .standard source).2
    Delimiters.standard.check = .ok () ∧
      events.filterMap Parser.Event.skipped? = [(.expectedExpression, 1), (.expectedExprEnd, 2),
        (.strayTag "else", 3), (.expectedIdentifier, 0), (.unclosedBlock "if", 0)] ∧
      ∀ e ∈ events, e.Confined (tokenize source "page" .standard).1 := by
  intro source events
  have hparse := parse_confined Delimiters.check_standard ⟨"page", .minimize⟩ source
  exact ⟨Delimiters.check_standard, by decide +kernel, hparse.2.1⟩

end TemplateCompiler
