import TemplateCompiler.Proofs.GenerationTotal
import TemplateCompiler.Proofs.Settled

/-!
# Requests

A compiler is asked for files and inline sources, one after the other, and some requests end in a
fault. Every request that returns gives a decided compilation, and no request fails in generation:
when a unit comes that far, all its calls are bound, and all its includes have programs, whether
these were compiled now or were remembered.
-/

namespace TemplateCompiler

open Template (walkAll)

namespace Compiler

variable {c : Compiler} {fs : FileSystem} {E : CompileFault → Prop}

/-! ## Includes -/

/-- While there are no diagnostics, there were none to start with, and all of the tags have
programs. -/
def Included.Complete (start : List Diagnostic) (tags : List (String × Span)) (done : Included) :
    Prop :=
  done.diagnostics = [] →
    start = [] ∧ ∀ tag ∈ tags, ∃ program, done.programs.lookup tag.2 = some program

namespace Included

variable {start : List Diagnostic} {tags : List (String × Span)} {done : Included}

theorem complete_start {sources : Report.Sources} :
    Complete start [] { diagnostics := start, sources } :=
  fun h => ⟨h, nofun⟩

/-- Diagnostics are never taken back. -/
theorem complete_of_ne_nil (h : done.diagnostics ≠ []) : Complete start tags done :=
  fun hnil => (h hnil).elim

theorem complete_refuse (span : Span) (problem : IncludeProblem) :
    Complete start tags (done.refuse span problem) :=
  complete_of_ne_nil (List.append_ne_nil_of_right_ne_nil _ (List.cons_ne_nil _ _))

theorem Complete.add (h : Complete start tags done) (path : String) (span : Span)
    (program : Program) {sources : Report.Sources} {contextual : Bool} :
    Complete start (tags ++ [(path, span)])
      ⟨(span, program) :: done.programs, done.diagnostics, sources, contextual⟩ := by
  intro hnil
  obtain ⟨hstart, htags⟩ := h hnil
  refine ⟨hstart, fun tag htag => ?_⟩
  rw [List.lookup_cons]
  by_cases hspan : tag.2 = span
  · exact ⟨program, by simp [hspan]⟩
  · rcases List.mem_append.mp htag with htag | htag
    · obtain ⟨earlier, hearlier⟩ := htags tag htag
      exact ⟨earlier, by simpa only [beq_eq_false_iff_ne.mpr hspan] using hearlier⟩
    · obtain rfl := List.mem_singleton.mp htag
      exact (hspan rfl).elim

end Included

/-- An include tag gets its program, or leaves a diagnostic. -/
theorem Keeps.resolveInclude (hE : ∀ fault : CompileFault, fault.Outside → E fault)
    {compile : Path → CompileM Outcome} {unit : SourceUnit} {stack : List Path}
    (hcompile : stack.length < c.maxIncludeDepth →
      ∀ path, Keeps E (compile path) (·.compilation.Decided))
    {start : List Diagnostic} {tags : List (String × Span)} {done : Included}
    (h : done.Complete start tags) (tag : String × Span) :
    Keeps E (resolveInclude c fs compile unit stack done tag)
      (Included.Complete start (tags ++ [tag])) := by
  obtain ⟨path, span⟩ := tag
  refine (liftRead hE _).bind fun found _ => ?_
  cases found with
  | none => exact .pure (Included.complete_refuse _ _)
  | some found =>
      dsimp only
      split
      · exact .pure (Included.complete_refuse _ _)
      · split
        · exact .pure (Included.complete_refuse _ _)
        · next hdepth =>
            refine (tell _).bind fun _ _ => ?_
            refine (readable (hcompile (Int.not_le.mp hdepth) found)).bind fun result hresult => ?_
            cases result with
            | error fault => exact .pure (Included.complete_refuse _ _)
            | ok outcome =>
                rcases hresult with ⟨program, hprogram, -⟩ | ⟨hnone, hdiagnostics⟩
                · simp only [hprogram]
                  exact .pure (h.add path span program)
                · simp only [hnone]
                  refine .pure (Included.complete_of_ne_nil ?_)
                  refine List.append_ne_nil_of_right_ne_nil _ fun hnil => hdiagnostics ?_
                  exact List.map_eq_nil_iff.mp hnil

/-! ## Units -/

/-- Where the includes of a unit start from: the problems of its calls are known, and nothing is
included yet. -/
def Included.ofUnit (unit : SourceUnit) (t : Template) : Included where
  diagnostics := (bindAll t t.macroTable.1).2.map (·.diagnostic BindProblem.message)
  sources := unit.sources

/-- Generation finds all that it looks for: a binding under the span of every call, wherever it
stands, and a program under the span of every include. -/
structure Generates (c : Compiler) (unit : SourceUnit) (t : Template) (includes : Inclusions) :
    Prop where
  bound : ∀ place call, t.SiteAt t.macroTable.1 place call →
    ∃ bound, (bindAll t t.macroTable.1).1.lookup call.span = some bound
  included : ∀ path name span, t.NodeAt path (.inclusion name span) →
    ∃ program, includes.lookup span = some program
  succeeds : ∃ program,
    (Generator.ofTemplate t includes (c.config.escaperFor unit.name)).program t unit.name =
      .ok program

theorem mem_includeTags {t : Template} {name : String} {span : Span} :
    (name, span) ∈ includeTags t ↔ .inclusion name span ∈ walkAll t.body := by
  rw [includeTags, List.mem_filterMap]
  constructor
  · rintro ⟨n, hn, htag⟩
    cases n with
    | inclusion path s =>
        obtain ⟨rfl, rfl⟩ := Prod.mk.inj (Option.some.inj htag)
        exact hn
    | _ => cases htag
  · exact fun h => ⟨_, h, rfl⟩

section

variable {setting : Parser.Setting} {delimiters : Delimiters} {source : String} {parsed : Parsed}

theorem generates_of_complete (h : parse setting delimiters source = .ok parsed)
    {unit : SourceUnit} {done : Included} (hnil : done.diagnostics = [])
    (hdone : done.Complete (Included.ofUnit unit parsed.template).diagnostics
      (includeTags parsed.template)) :
    Generates c unit parsed.template done.programs := by
  obtain ⟨hstart, htags⟩ := hdone hnil
  have hproblems : (bindAll parsed.template parsed.template.macroTable.1).2 = [] :=
    List.map_eq_nil_iff.mp hstart
  have hincluded : ∀ name span, .inclusion name span ∈ walkAll parsed.template.body →
      ∃ program, done.programs.lookup span = some program :=
    fun name span hn => htags (name, span) (mem_includeTags.mpr hn)
  refine ⟨fun place call hplace => ?_, fun path name span hn => ?_, ?_⟩
  · have hcall := (parsed.template.callSites_enumerates _).mem_iff.mpr ⟨place, hplace⟩
    obtain ⟨bound, -, hbound, -⟩ := Generator.bindsOwn_of_parse h hproblems [] "" hcall
    exact ⟨bound, hbound⟩
  · exact hincluded name span ((Template.walkAll_enumerates _).mem_iff.mpr ⟨path, hn⟩)
  · exact Generator.exists_program_of_parse h hproblems hincluded _ _

theorem Keeps.includes (hE : ∀ fault : CompileFault, fault.Outside → E fault)
    {compile : Path → CompileM Outcome} {unit : SourceUnit} {stack : List Path}
    (hcompile : stack.length < c.maxIncludeDepth →
      ∀ path, Keeps E (compile path) (·.compilation.Decided)) (t : Template) :
    Keeps E
      ((includeTags t).foldlM (Compiler.resolveInclude c fs compile unit stack)
        (Included.ofUnit unit t))
      (Included.Complete (Included.ofUnit unit t).diagnostics (includeTags t)) :=
  foldlM (I := Included.Complete (Included.ofUnit unit t).diagnostics)
    (fun _ tag _ h => resolveInclude hE hcompile h tag) (includeTags t) [] _
    Included.complete_start

theorem runParsed_eq (compile : List Path → Path → CompileM Outcome) (unit : SourceUnit)
    (stack : List Path) (t : Template) :
    runParsed c fs compile unit stack t = do
      t.macroTable.2.forM fun s => tell (.shadows s)
      let inner := stack ++ unit.path.toList
      let done ← (includeTags t).foldlM (resolveInclude c fs (compile inner) unit inner)
        (Included.ofUnit unit t)
      if done.diagnostics.isEmpty then
        let g := Generator.ofTemplate t done.programs (c.config.escaperFor unit.name)
        match g.program t unit.name with
        | .ok program => return ⟨← finish unit (some program) [] done.sources, done.contextual⟩
        | .error fault => throw (.generation fault)
      else return ⟨← finish unit none done.diagnostics done.sources, done.contextual⟩ :=
  rfl

theorem Keeps.runParsed (hE : ∀ fault : CompileFault, fault.Outside → E fault)
    {compile : List Path → Path → CompileM Outcome} {unit : SourceUnit} {stack : List Path}
    (hcompile : (stack ++ unit.path.toList).length < c.maxIncludeDepth →
      ∀ path, Keeps E (compile (stack ++ unit.path.toList) path) (·.compilation.Decided))
    (h : parse setting delimiters source = .ok parsed) :
    Keeps E (runParsed c fs compile unit stack parsed.template) (·.compilation.Decided) := by
  rw [runParsed_eq]
  refine (forM _ fun _ _ => tell _).bind fun _ _ => ?_
  refine (Keeps.includes hE hcompile parsed.template).bind fun done hdone => ?_
  dsimp only
  split
  · next hempty =>
      have hgenerates : Generates c unit parsed.template done.programs :=
        generates_of_complete h (List.isEmpty_iff.mp hempty) hdone
      obtain ⟨program, hprogram⟩ := hgenerates.succeeds
      simp only [hprogram]
      exact (finish_program unit program done.sources).bind fun result hresult => .pure hresult
  · next hne =>
      refine (finish_diagnostics unit ?_ done.sources).bind fun result hresult => .pure hresult
      exact fun hnil => hne (List.isEmpty_iff.mpr hnil)

end

section

variable {compile : List Path → Path → CompileM Outcome} {unit : SourceUnit} {stack : List Path}

theorem Keeps.run (hE : ∀ fault : CompileFault, fault.Outside → E fault)
    (hcompile : (stack ++ unit.path.toList).length < c.maxIncludeDepth →
      ∀ path, Keeps E (compile (stack ++ unit.path.toList) path) (·.compilation.Decided)) :
    Keeps E (run c fs compile unit stack) (·.compilation.Decided) := by
  refine (liftConfig hE _).bind fun delimiters _ => ?_
  dsimp only
  split
  · exact .throw (hE _ trivial)
  · next parsed hparsed =>
      split
      · exact runParsed hE hcompile hparsed
      · next hne =>
          refine (finish_diagnostics unit ?_ unit.sources).bind fun result hresult => .pure hresult
          exact fun hnil => hne (List.isEmpty_iff.mpr (List.map_eq_nil_iff.mp hnil))

theorem Keeps.compileUnit (hE : ∀ fault : CompileFault, fault.Outside → E fault)
    (hcompile : (stack ++ unit.path.toList).length < c.maxIncludeDepth →
      ∀ path, Keeps E (compile (stack ++ unit.path.toList) path) (·.compilation.Decided))
    (key : MemoKey) :
    Keeps E (compileUnit c fs compile unit key stack) (·.compilation.Decided) := by
  refine (remembered key).bind fun found hfound => ?_
  cases found with
  | some earlier => exact (tell _).bind fun _ _ => .pure (hfound earlier rfl)
  | none =>
      refine (tell _).bind fun _ _ => (run hE hcompile).bind fun outcome houtcome => ?_
      split
      · exact .pure houtcome
      · exact (remember key houtcome).bind fun result hresult => .pure hresult

end

/-! ## Files -/

/-- With enough fuel for the includes that the stack still admits, fuel is never the fault. -/
theorem Keeps.compilePath (hE : ∀ fault : CompileFault, fault.Outside → E fault) (fuel : Nat)
    (stack : List Path) (path : Path)
    (hfuel : E .outOfFuel ∨ 0 < fuel ∧ c.maxIncludeDepth.toNat < fuel + stack.length) :
    Keeps E (compilePath c fs fuel stack path) (·.compilation.Decided) := by
  induction fuel generalizing stack path with
  | zero =>
      obtain hout | ⟨hpos, -⟩ := hfuel
      · exact .throw hout
      · omega
  | succ fuel ih =>
      refine (locate hE fs path).bind fun resolved _ => ?_
      refine (remembered _).bind fun found hfound => ?_
      cases found with
      | some earlier => exact (tell _).bind fun _ _ => .pure (hfound earlier rfl)
      | none =>
          dsimp only
          split
          · exact .throw (hE _ trivial)
          · refine compileUnit hE (fun hdepth path => ih _ path (hfuel.imp_right ?_)) _
            rintro ⟨-, henough⟩
            simp only [Option.toList_some, List.length_append, List.length_singleton] at hdepth ⊢
            omega

/-! ## Histories -/

/-- What a compiler is asked for: a template file, or an inline source. -/
inductive Request where
  | file (path : Path)
  | source (text name : String) (origin : Option Span) (path : Option Path)

def Request.perform (c : Compiler) (fs : FileSystem) : Request → CompileM Compilation
  | .file path => c.compileFile fs path
  | .source text name origin path => c.compileSource fs text name origin path

/-- The state after one more request, also if it ended in a fault. -/
def State.next (c : Compiler) (fs : FileSystem) (s : State) (r : Request) : State :=
  match r.perform c fs s with
  | .ok _ s' => s'
  | .error _ s' => s'

/-- The state of a new compiler after requests. -/
def State.after (c : Compiler) (fs : FileSystem) (history : List Request) : State :=
  history.foldl (State.next c fs) {}

theorem Keeps.perform (c : Compiler) (fs : FileSystem) (r : Request) :
    Keeps CompileFault.Outside (r.perform c fs) Compilation.Decided := by
  have hE : ∀ fault : CompileFault, fault.Outside → fault.Outside := fun _ h => h
  cases r with
  | file path =>
      refine (compilePath hE c.includeFuel [] path (.inr ?_)).map fun _ h => h
      simp only [includeFuel, List.length_nil]
      omega
  | source text name origin path =>
      have hpath : Keeps CompileFault.Outside (path.mapM (Compiler.locate fs)) fun _ => True := by
        cases path with
        | none => exact .pure trivial
        | some path => exact (locate hE fs path).map fun _ _ => trivial
      refine hpath.bind fun resolved _ => ?_
      refine (compileUnit hE (fun _ path => ?_) _).map fun _ h => h
      refine compilePath hE c.includeFuel _ path (.inr ?_)
      simp only [includeFuel]
      omega

theorem State.settled_next {s : State} (h : s.Settled) (r : Request) : (s.next c fs r).Settled := by
  have hends := Keeps.perform c fs r s h
  unfold next
  split
  · next hok => exact (hends.of_ok hok).1
  · next herror => exact (hends.of_error herror).1

theorem State.settled_after (c : Compiler) (fs : FileSystem) (history : List Request) :
    (State.after c fs history).Settled := by
  unfold after
  generalize hs : ({} : State) = s
  have h : s.Settled := hs ▸ State.settled_initial
  clear hs
  induction history generalizing s with
  | nil => exact h
  | cons r history ih => exact ih _ (settled_next h r)

/-! ## Whatever was asked before -/

/-- What can be relied on with a compiler and unchanging files. -/
structure Sound (c : Compiler) (fs : FileSystem) : Prop where
  /-- A request gives a decided compilation, or ends because of something outside the compiler. -/
  decided : ∀ (history : List Request) (r : Request),
    Ends (r.perform c fs) (State.after c fs history) (fun compilation _ => compilation.Decided)
      fun fault _ => fault.Outside
  settled : ∀ history : List Request, (State.after c fs history).Settled
  /-- Also in the middle of a request, wherever it ends. -/
  kept : ∀ (fuel : Nat) (stack : List Path) (path : Path) (s : State), s.Settled →
    Ends (compilePath c fs fuel stack path) s (fun _ s' => s'.Settled) fun _ s' => s'.Settled
  /-- A source whose calls and includes leave no diagnostics can be generated. -/
  generates : ∀ (unit : SourceUnit) (setting : Parser.Setting) (delimiters : Delimiters)
    (parsed : Parsed), parse setting delimiters unit.text = .ok parsed →
    ∀ (fuel : Nat) (stack : List Path) (s : State), s.Settled →
    Ends ((includeTags parsed.template).foldlM
        (resolveInclude c fs (compilePath c fs fuel stack) unit stack)
        (Included.ofUnit unit parsed.template)) s
      (fun done _ => done.diagnostics = [] → Generates c unit parsed.template done.programs)
      fun _ _ => True

/-- Compilations are programs or diagnostics, and generation never fails. -/
theorem requests_sound (c : Compiler) (fs : FileSystem) : Sound c fs := by
  have hkeeps : ∀ fuel stack path,
      Keeps (fun _ => True) (compilePath c fs fuel stack path) (·.compilation.Decided) :=
    fun fuel stack path => Keeps.compilePath (fun _ _ => trivial) fuel stack path (.inl trivial)
  refine ⟨fun history r => ?_, State.settled_after c fs, fun fuel stack path s hs => ?_,
    fun unit setting delimiters parsed hparsed fuel stack s hs => ?_⟩
  · have hends := Keeps.perform c fs r _ (State.settled_after c fs history)
    exact hends.imp (fun _ _ h => h.2) fun _ _ h => h.2
  · exact (hkeeps fuel stack path s hs).imp (fun _ _ h => h.1) fun _ _ h => h.1
  · refine (Keeps.includes (fun _ _ => trivial) (fun _ => hkeeps fuel stack) parsed.template s
      hs).imp (fun done _ h hnil => ?_) fun _ _ _ => trivial
    exact generates_of_complete hparsed hnil h.2

/-- A page that includes a part twice and passes a call to a macro, after a fault and after the part
itself. -/
theorem decided_of_repeated_include :
    let page := "\x7b% macro m(a, b=1) %\x7d\x7b\x7b a \x7d\x7d\x7b% endmacro %\x7d" ++
      "\x7b% include 'part' %\x7d\x7b% include 'part' %\x7d\x7b\x7b m(m(1)) \x7d\x7d"
    let fs : FileSystem :=
      ⟨[], [(["page"], .file page.toUTF8.toList), (["part"], .file "part".toUTF8.toList)]⟩
    let c : Compiler := ⟨.withDirs [⟨.absolute, []⟩], none, none, 16⟩
    let history : List Request := [.file (.ofString "none"), .file (.ofString "part")]
    ∃ compilation s,
      (Request.file (.ofString "page")).perform c fs (.after c fs history) = .ok compilation s ∧
        compilation.program.isSome ∧ compilation.Decided := by
  intro page fs c history
  obtain ⟨compilation, s, hok, hprogram⟩ := Ends.exists_of_run_map
    (p := (Request.file (.ofString "page")).perform c fs) (s := .after c fs history)
    (f := (·.program.isSome)) (b := true) (by decide +kernel)
  have hends := (requests_sound c fs).decided history (.file (.ofString "page"))
  exact ⟨compilation, s, hok, hprogram, hends.of_ok hok⟩

end Compiler

end TemplateCompiler
