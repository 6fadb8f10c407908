import TemplateCompiler.Proofs.IncludeGraph

/-!
# Accounts agree

Two accounts of one file that are made from the same stack come to the same diagnostics, whatever is
remembered on either side, and so do two accounts that do not depend on a stack. What is left is
that one of them depends on its stack and the other does not. If no include was too deep, the first
has met a file of its stack. Everything on the stack leads to the file, so the other account would
have gone round a cycle, which none does.

Files go by the names that they are found under. So diagnostics are compared under one name.
-/

namespace TemplateCompiler

namespace Compiler

open Relation (ReflTransGen TransGen)

variable {c : Compiler} {fs : FileSystem} {m₀ m m' : Memory} {base stack stack' : List Path}
  {place next : Path} {o o' : Outcome}

variable (hhere : ".." ∉ fs.here)

/-! ## Files that are read -/

/-- Those that include the file at a place cannot read it: there is no text in it, or one of its own
include tags ends the compilation. -/
def Blocked (c : Compiler) (fs : FileSystem) (place : Path) : Prop :=
  (∃ fault, fs.textAt place = .error fault) ∨
    ∃ delimiters parsed file fault, ReadsAt c fs place delimiters parsed ∧
      parsed.complaints = [] ∧
        lookupFault? c fs (some place) (includeTags parsed.template) = some (file, fault)

theorem lookupFault?_inUnit (t : Template) (includer : Option Path) (name : String) :
    lookupFault? c fs includer (includeTags (t.inUnit name)) =
      lookupFault? c fs includer (includeTags t) := by
  rw [includeTags_inUnit, lookupFault?, List.findSome?_map]
  rfl

theorem lookupFault?_eq_none {includer : Option Path} {tags : List (String × Span)}
    (h : ∀ tag ∈ tags, ∃ found, c.config.findTemplate fs tag.1 includer = .ok found) :
    lookupFault? c fs includer tags = none := by
  rw [lookupFault?, List.findSome?_eq_none_iff]
  intro tag htag
  obtain ⟨found, hfound⟩ := h tag htag
  rw [hfound]

section

include hhere

/-- What a tag fault says, of the file itself. -/
theorem TagFault.at {unit : SourceUnit} (hunit : FileUnit fs unit place)
    {file : Path} {fault : ReadFault} (h : TagFault c fs unit file fault) :
    ∃ delimiters parsed, ReadsAt c fs place delimiters parsed ∧ parsed.complaints = [] ∧
      lookupFault? c fs (some place) (includeTags parsed.template) = some (file, fault) := by
  obtain ⟨delimiters, parsed, hreads, hnil, hfault⟩ := h.reads
  rw [hunit.path] at hfault
  refine ⟨delimiters, parsed.inUnit "", hunit.readsAt hhere hreads, ?_, ?_⟩
  · rw [Parsed.inUnit, hnil, List.map_nil]
  · rwa [Parsed.inUnit, lookupFault?_inUnit]

theorem Unreadable.blocked {p file : Path} {fault : ReadFault}
    (hfile : fs.isFile p = .ok true) (h : Unreadable c fs p file fault) :
    Blocked c fs (fs.resolve p) := by
  cases h with
  | noText _ hread =>
      rw [fs.readText_of_isFile hhere hfile] at hread
      exact .inl ⟨fault, hread⟩
  | badTag hunit htag =>
      obtain ⟨delimiters, parsed, hat⟩ := htag.at hhere hunit
      exact .inr ⟨delimiters, parsed, file, fault, hat⟩

theorem Unreadable.unique {p file file' : Path} {fault fault' : ReadFault}
    (hfile : fs.isFile p = .ok true) (h : Unreadable c fs p file fault)
    (h' : Unreadable c fs p file' fault') : file = file' ∧ fault = fault' := by
  have hexclusive : ∀ {unit : SourceUnit} {f : ReadFault}, FileUnit fs unit (fs.resolve p) →
      fs.readText p ≠ .error f := by
    intro unit f hunit herror
    obtain ⟨q, hq, -, htext⟩ := hunit.text
    have hplace := fs.textAt_of_readText hhere htext
    rw [hq, ← fs.readText_of_isFile hhere hfile, herror] at hplace
    cases hplace
  cases h with
  | noText hp hread =>
      cases h' with
      | noText hp' hread' => exact ⟨hp.trans hp'.symm, Except.error.inj (hread.symm.trans hread')⟩
      | badTag hunit' _ => exact absurd hread (hexclusive hunit')
  | badTag hunit htag =>
      cases h' with
      | noText _ hread' => exact absurd hread' (hexclusive hunit)
      | badTag hunit' htag' =>
          obtain ⟨_, _, hreads, -, hfault⟩ := htag.at hhere hunit
          obtain ⟨_, _, hreads', -, hfault'⟩ := htag'.at hhere hunit'
          obtain ⟨-, rfl⟩ := hreads.unique hreads'
          exact Prod.mk.inj (Option.some.inj (hfault.symm.trans hfault'))

/-- A file of which there is an account can be read by those that include it. -/
theorem Built.not_blocked (h : Built c fs m₀ m stack o)
    (hunit : FileUnit fs o.compilation.unit place) : ¬ Blocked c fs place := by
  have hreads : ∃ delimiters parsed, ReadsAt c fs place delimiters parsed ∧
      (parsed.complaints = [] →
        lookupFault? c fs (some place) (includeTags parsed.template) = none) := by
    cases h with
    | broken hreads hne _ _ =>
        refine ⟨_, _, hunit.readsAt hhere hreads, fun hnil => absurd ?_ hne⟩
        exact List.map_eq_nil_iff.mp hnil
    | clean h _ =>
        refine ⟨_, _, hunit.readsAt hhere h.reads, fun _ => ?_⟩
        rw [Parsed.inUnit, lookupFault?_inUnit, ← h.tags]
        refine lookupFault?_eq_none fun tag htag => ?_
        obtain ⟨entry, hentry, rfl⟩ := List.mem_map.mp htag
        rw [← hunit.path]
        exact (h.fits entry hentry).found
  obtain ⟨_, _, hat, hnone⟩ := hreads
  intro hblocked
  rcases hblocked with ⟨fault, herror⟩ | ⟨_, _, _, _, hat', hnil, hfault⟩
  · obtain ⟨text, htext, -⟩ := hat
    cases herror.symm.trans htext
  · obtain ⟨-, rfl⟩ := hat.unique hat'
    cases (hnone hnil).symm.trans hfault

theorem FileUnit.includes {unit : SourceUnit}
    (hunit : FileUnit fs unit place) {delimiters : Delimiters} {parsed : Parsed}
    (hreads : Reads c unit delimiters parsed) {tag : String × Span}
    (htag : tag ∈ includeTags parsed.template) {found : Path}
    (hfind : c.config.findTemplate fs tag.1 unit.path = .ok (some found)) :
    Includes c fs place (fs.resolve found) := by
  rw [hunit.path] at hfind
  refine ⟨delimiters, parsed.inUnit "", (tag.1, tag.2.inUnit ""), found,
    hunit.readsAt hhere hreads, ?_, hfind, rfl⟩
  rw [Parsed.inUnit, includeTags_inUnit]
  exact List.mem_map_of_mem htag

end

/-- The file at `place` is read without complaints and includes the file at `next`. -/
structure Live (c : Compiler) (fs : FileSystem) (place next : Path) : Prop where
  read : ¬ Blocked c fs place
  parsed : ∃ delimiters parsed, ReadsAt c fs place delimiters parsed ∧ parsed.complaints = []
  includes : Includes c fs place next

theorem not_blocked_of_reaches (h : TransGen (Live c fs) place next) : ¬ Blocked c fs place := by
  obtain ⟨_, hlive, _⟩ := TransGen.head'_iff.mp h
  exact hlive.read

/-! ## Accounts that do not depend on a stack -/

theorem Fits.arrives {unit : SourceUnit} {tag : String × Span} {share : Share}
    (h : Fits c fs m₀ m unit stack tag share) {from' : List Path}
    (hshare : share = .reached from' o) :
    ∃ found, c.config.findTemplate fs tag.1 unit.path = .ok (some found) ∧
      fs.resolve found ∉ stack ∧ (stack.length : Int) < c.maxIncludeDepth ∧
        Arrives fs m₀ m stack (fs.resolve found) from' o := by
  cases h with
  | reached hfind hstack hdepth ha =>
      obtain ⟨rfl, rfl⟩ := Share.reached.inj hshare
      exact ⟨_, hfind, hstack, hdepth, ha⟩
  | _ => cases hshare

theorem FileUnit.leadBack_eq {unit : SourceUnit} (h : FileUnit fs unit place)
    (diagnostics : List Diagnostic) : leadBack unit diagnostics = diagnostics :=
  leadBack_of_none h.origin diagnostics

namespace Itemized

variable {comp : Compilation} {delimiters : Delimiters} {parsed : Parsed} {entries : List Entry}

theorem diagnostics_eq (h : Itemized c fs m₀ m stack comp delimiters parsed entries)
    (hunit : FileUnit fs comp.unit place) :
    comp.diagnostics = (Included.ofUnit comp.unit parsed.template).diagnostics ++
      entries.flatMap fun entry => entry.2.diagnostics entry.1.2 := by
  rw [h.ends.diagnostics, hunit.leadBack_eq, Included.diagnostics_foldl]

theorem mem_diagnostics (h : Itemized c fs m₀ m stack comp delimiters parsed entries)
    (hunit : FileUnit fs comp.unit place) {entry : Entry} (hentry : entry ∈ entries)
    {d : Diagnostic} (hd : d ∈ entry.2.diagnostics entry.1.2) : d ∈ comp.diagnostics := by
  rw [h.diagnostics_eq hunit]
  exact List.mem_append_right _ (List.mem_flatMap.mpr ⟨entry, hentry, hd⟩)

include hhere

theorem readsAt (h : Itemized c fs m₀ m stack comp delimiters parsed entries)
    (hunit : FileUnit fs comp.unit place) :
    ReadsAt c fs place delimiters (parsed.inUnit "") ∧ (parsed.inUnit "").complaints = [] :=
  ⟨hunit.readsAt hhere h.reads, by rw [Parsed.inUnit, h.flawless, List.map_nil]⟩

/-- There is an entry for each file that is included. -/
theorem exists_entry (h : Itemized c fs m₀ m stack comp delimiters parsed entries)
    (hunit : FileUnit fs comp.unit place) (hnext : Includes c fs place next) :
    ∃ entry ∈ entries, ∃ found,
      c.config.findTemplate fs entry.1.1 comp.unit.path = .ok (some found) ∧
        fs.resolve found = next := by
  obtain ⟨_, _, tag, found, hreads, htag, hfind, hresolve⟩ := hnext
  obtain ⟨-, rfl⟩ := hreads.unique (h.readsAt hhere hunit).1
  rw [Parsed.inUnit, includeTags_inUnit, ← h.tags, List.map_map] at htag
  obtain ⟨entry, hentry, rfl⟩ := List.mem_map.mp htag
  rw [← hunit.path] at hfind
  exact ⟨entry, hentry, found, hfind, hresolve⟩

/-- A tag of a file that is read leads to a file that it includes. -/
theorem live (h : Itemized c fs m₀ m stack comp delimiters parsed entries)
    (hunit : FileUnit fs comp.unit place) (hread : ¬ Blocked c fs place) {entry : Entry}
    (hentry : entry ∈ entries) {found : Path}
    (hfind : c.config.findTemplate fs entry.1.1 comp.unit.path = .ok (some found)) :
    Live c fs place (fs.resolve found) where
  read := hread
  parsed := ⟨_, _, h.readsAt hhere hunit⟩
  includes := hunit.includes hhere h.reads (h.tags ▸ List.mem_map_of_mem hentry) hfind

end Itemized

section

include hhere

/-- A share that does not depend on a stack is no refusal, unless the file cannot be read. -/
theorem Fits.plain {unit : SourceUnit} {tag : String × Span}
    {share : Share} (h : Fits c fs m₀ m unit stack tag share) (hplain : share.contextual = false)
    {found : Path} (hfind : c.config.findTemplate fs tag.1 unit.path = .ok (some found)) :
    fs.resolve found ∉ stack ∧ (Blocked c fs (fs.resolve found) ∨
      ∃ from' o, share = .reached from' o ∧
        Arrives fs m₀ m stack (fs.resolve found) from' o) := by
  cases h with
  | missing hfind' => cases hfind'.symm.trans hfind
  | circular _ _ => cases hplain
  | tooDeep _ _ _ => cases hplain
  | unreadable hfind' hstack _ hun =>
      obtain rfl := Option.some.inj (Except.ok.inj (hfind'.symm.trans hfind))
      exact ⟨hstack, .inl (hun.blocked hhere (isFile_of_findTemplate hfind))⟩
  | reached hfind' hstack _ harrives =>
      obtain rfl := Option.some.inj (Except.ok.inj (hfind'.symm.trans hfind))
      exact ⟨hstack, .inr ⟨_, _, rfl, harrives⟩⟩

/-- What a file includes that has an account which does not depend on a stack. -/
theorem Built.plain (h : Built c fs m₀ m stack o)
    (hplain : o.contextual = false) (hunit : FileUnit fs o.compilation.unit place)
    (hlive : Live c fs place next) :
    next ∉ stack ++ [place] ∧
      (Blocked c fs next ∨ ∃ comp, m.lookup (.file next) = some comp) := by
  cases h with
  | broken hreads hne _ _ =>
      obtain ⟨_, _, hreads', hnil⟩ := hlive.parsed
      obtain ⟨-, rfl⟩ := hreads'.unique (hunit.readsAt hhere hreads)
      exact absurd (List.map_eq_nil_iff.mp hnil) hne
  | clean h _ =>
      obtain ⟨entry, hentry, found, hfind, rfl⟩ := h.exists_entry hhere hunit hlive.includes
      have hflag := contextual_of_mem hplain hentry
      obtain ⟨hstack, hshare⟩ := (h.fits entry hentry).plain hhere hflag hfind
      rw [hunit.path] at hstack
      refine ⟨hstack, hshare.imp_right ?_⟩
      rintro ⟨from', o, hreached, harrives⟩
      rw [hreached] at hflag
      exact ⟨o.compilation, harrives.kept hflag⟩

/-- No cycle runs through a file that has an account which does not depend on a stack. -/
theorem Built.acyclic (h : Built c fs m₀ m stack o)
    (hplain : o.contextual = false) (hunit : FileUnit fs o.compilation.unit place) :
    ¬ TransGen (Live c fs) place place := by
  have hread := h.not_blocked hhere hunit
  induction h generalizing place with
  | broken hreads hne _ _ =>
      intro hcycle
      obtain ⟨_, hlive, _⟩ := TransGen.head'_iff.mp hcycle
      obtain ⟨_, _, hreads', hnil⟩ := hlive.parsed
      obtain ⟨-, rfl⟩ := hreads'.unique (hunit.readsAt hhere hreads)
      exact hne (List.map_eq_nil_iff.mp hnil)
  | clean h hshares ih =>
      intro hcycle
      obtain ⟨next, hlive, hback⟩ := TransGen.head'_iff.mp hcycle
      have hround : TransGen (Live c fs) next next := TransGen.tail' hback hlive
      obtain ⟨entry, hentry, found, hfind, rfl⟩ := h.exists_entry hhere hunit hlive.includes
      have hflag := contextual_of_mem hplain hentry
      have hplainTag := ((h.fits entry hentry).plain hhere hflag hfind).2
      rcases hplainTag with hblocked | ⟨from', o, hreached, harrives⟩
      · exact not_blocked_of_reaches hround hblocked
      · rw [hreached] at hflag
        have hbuilt := hshares entry hentry from' o hreached
        exact ih entry hentry from' o hreached hflag harrives.unit
          (hbuilt.not_blocked hhere harrives.unit) hround

end

/-! ## Accounts that depend on their stack -/

/-- Some diagnostic is that the depth limit is exceeded. -/
def ReportsLimit (c : Compiler) (diagnostics : List Diagnostic) : Prop :=
  ∃ d ∈ diagnostics, d.message = (IncludeProblem.tooDeep c.maxIncludeDepth).message

/-- No way on from a place can make the stack too long, unless it goes round a cycle. -/
structure Roomy (c : Compiler) (fs : FileSystem) (stack : List Path) (place : Path) : Prop where
  nodup : (stack ++ [place]).Nodup
  room : ∀ chain, chain ≠ [] → (place :: chain).IsChain (Includes c fs) →
    (stack ++ place :: chain).Nodup → ((stack ++ place :: chain).length : Int) ≤ c.maxIncludeDepth

/-- What is known of an outcome for a place that is made from a stack: all that is on the stack
leads to the place, except for what was there from the start, and the depth limit is not met. -/
structure Ahead (c : Compiler) (fs : FileSystem) (base stack : List Path) (place : Path)
    (o : Outcome) : Prop where
  way : ∀ earlier ∈ stack, earlier ∈ base ∨ ReflTransGen (Live c fs) earlier place
  limit : ¬ ReportsLimit c o.compilation.diagnostics ∨ Roomy c fs stack place

theorem Roomy.step (h : Roomy c fs stack place) (hincludes : Includes c fs place next)
    (hnew : next ∉ stack ++ [place]) : Roomy c fs (stack ++ [place]) next where
  nodup := by
    refine List.nodup_append.mpr ⟨h.nodup, List.nodup_singleton next, ?_⟩
    rintro earlier hearlier _ hmem rfl
    exact hnew (List.mem_singleton.mp hmem ▸ hearlier)
  room chain _ hchain hnodup := by
    rw [List.append_assoc, List.singleton_append] at hnodup ⊢
    exact h.room (next :: chain) (List.cons_ne_nil _ _)
      (List.isChain_cons_cons.mpr ⟨hincludes, hchain⟩) hnodup

theorem Roomy.lt (h : Roomy c fs stack place) (hincludes : Includes c fs place next)
    (hnew : next ∉ stack ++ [place]) : ((stack ++ [place]).length : Int) < c.maxIncludeDepth := by
  have hnodup := (h.step hincludes hnew).nodup
  rw [List.append_assoc, List.singleton_append] at hnodup
  have hroom := h.room [next] (List.cons_ne_nil _ _)
    (List.isChain_cons_cons.mpr ⟨hincludes, List.isChain_singleton next⟩) hnodup
  simp only [List.length_append, List.length_cons, List.length_nil] at hroom ⊢
  omega

theorem Ahead.step (h : Ahead c fs base stack place o) (hlive : Live c fs place next)
    (hnew : next ∉ stack ++ [place])
    (hall : ∀ d ∈ o'.compilation.diagnostics, ∃ d' ∈ o.compilation.diagnostics,
      d'.message = d.message) : Ahead c fs base (stack ++ [place]) next o' where
  way earlier hearlier := by
    rcases List.mem_append.mp hearlier with hstack | hlast
    · exact (h.way earlier hstack).imp_right fun hreach => hreach.tail hlive
    · obtain rfl := List.mem_singleton.mp hlast
      exact .inr (.single hlive)
  limit := by
    refine h.limit.imp (fun hsilent hreports => hsilent ?_) fun hroomy =>
      hroomy.step hlive.includes hnew
    obtain ⟨d, hd, hmessage⟩ := hreports
    obtain ⟨d', hd', hsame⟩ := hall d hd
    exact ⟨d', hd', hsame.trans hmessage⟩

/-- What an outcome that a tag reached adds to the diagnostics. -/
theorem Built.diagnostics_reached (h : Built c fs m₀ m stack o) (from' : List Path) (span : Span) :
    (Share.reached from' o).diagnostics span = o.compilation.diagnostics.map (·.through span) := by
  rw [Share.diagnostics]
  cases hprogram : o.compilation.program with
  | none => rw [if_neg (by simp)]
  | some program =>
      rw [if_pos (by simp), h.ok_iff.mpr ⟨program, hprogram⟩, List.map_nil]

section

include hhere

theorem Itemized.ahead {comp : Compilation} {flag : Bool}
    {delimiters : Delimiters} {parsed : Parsed} {entries : List Entry}
    (h : Itemized c fs m₀ m stack comp delimiters parsed entries)
    (hunit : FileUnit fs comp.unit place) (hread : ¬ Blocked c fs place)
    (hahead : Ahead c fs base stack place ⟨comp, flag⟩) {entry : Entry} (hentry : entry ∈ entries)
    {found : Path} (hfind : c.config.findTemplate fs entry.1.1 comp.unit.path = .ok (some found))
    (hnew : fs.resolve found ∉ stack ++ [place]) {from' : List Path}
    (hshare : entry.2 = .reached from' o) (hbuilt : Built c fs m₀ m from' o) :
    Ahead c fs base (stack ++ [place]) (fs.resolve found) o := by
  refine hahead.step (h.live hhere hunit hread hentry hfind) hnew fun d hd => ?_
  refine ⟨d.through entry.1.2, h.mem_diagnostics hunit hentry ?_, rfl⟩
  rw [hshare, hbuilt.diagnostics_reached]
  exact List.mem_map_of_mem hd

/-- If a file has an account that does not depend on a stack, nothing that the file includes leads
to it. -/
theorem Built.no_way_back {from' : List Path}
    (h : Built c fs m₀ m from' o) (hplain : o.contextual = false)
    (hunit : FileUnit fs o.compilation.unit place)
    (hbase : ∀ earlier ∈ base, earlier ∈ from' ++ [place])
    (hway : ∀ earlier ∈ stack, earlier ∈ base ∨ ReflTransGen (Live c fs) earlier place)
    (hlive : Live c fs place next) : next ∉ stack ++ [place] := by
  have hnew := (h.plain hhere hplain hunit hlive).1
  intro hmem
  rcases List.mem_append.mp hmem with hstack | hlast
  · rcases hway next hstack with hmem | hback
    · exact hnew (hbase next hmem)
    · exact h.acyclic hhere hplain hunit (TransGen.head' hlive hback)
  · exact hnew (List.mem_append_right _ hlast)

/-- A file whose outcome depends on the stack is not remembered. It has met a file of its stack, and
an account that does not depend on a stack would go round that cycle. -/
theorem Built.lookup_eq_none (hm : Extends c fs base m₀ m')
    (h : Built c fs m₀ m stack o) (hcontextual : o.contextual = true)
    (hunit : FileUnit fs o.compilation.unit place) (hnew : m₀.lookup (.file place) = none)
    (hahead : Ahead c fs base stack place o) : m'.lookup (.file place) = none := by
  have hread := h.not_blocked hhere hunit
  induction h generalizing place with
  | broken => cases hcontextual
  | @clean stack comp _ _ entries h hshares ih =>
      by_contra hsome
      obtain ⟨comp', hlookup⟩ := Option.ne_none_iff_exists'.mp hsome
      rcases hm.added _ _ hlookup with hold | ⟨hof, from', hbase, hplain⟩
      · cases hnew.symm.trans hold
      have hunit' : FileUnit fs comp'.unit place := hof
      rw [hunit'.path] at hbase
      obtain ⟨⟨⟨path, span⟩, share⟩, hentry, hflag⟩ := List.any_eq_true.mp hcontextual
      have hfit : Fits c fs m₀ m comp.unit (stack ++ [place]) (path, span) share := by
        have hfits := h.fits _ hentry
        rwa [hunit.path] at hfits
      cases hfit with
      | missing => cases hflag
      | unreadable => cases hflag
      | circular hfind hstack =>
          have hlive := h.live hhere hunit hread hentry hfind
          exact hplain.no_way_back hhere rfl hunit' hbase hahead.way hlive hstack
      | tooDeep hfind hstack hdepth =>
          have hlive := h.live hhere hunit hread hentry hfind
          rcases hahead.limit with hsilent | hroomy
          · exact hsilent ⟨⟨_, span, [], .error⟩,
              h.mem_diagnostics hunit hentry (List.mem_singleton_self _), rfl⟩
          · exact absurd (hroomy.lt hlive.includes hstack) (Int.not_lt.mpr hdepth)
      | @reached _ _ found from'' o hfind hstack hdepth harrives =>
          have hbuilt := hshares _ hentry from'' o rfl
          have hreached := hbuilt.not_blocked hhere harrives.unit
          have hlive := h.live hhere hunit hread hentry hfind
          have hdone := h.ahead hhere hunit hread hahead hentry hfind hstack rfl hbuilt
          obtain rfl := harrives.here hflag
          have hnone := ih _ hentry _ o rfl hflag harrives.unit (harrives.new hflag) hdone hreached
          rcases (hplain.plain hhere rfl hunit' hlive).2 with hblocked | ⟨_, hkept⟩
          · exact hreached hblocked
          · cases hnone.symm.trans hkept

end

/-! ## Agreement -/

/-- Diagnostics with no name in their spans. -/
abbrev nameless (diagnostics : List Diagnostic) : List Diagnostic :=
  diagnostics.map (Diagnostic.inUnit "")

theorem nameless_through (diagnostics : List Diagnostic) (site : Span) :
    nameless (diagnostics.map (·.through site)) =
      (nameless diagnostics).map (·.through (site.inUnit "")) := by
  rw [nameless, List.map_map, List.map_map]
  exact List.map_congr_left fun d _ => d.inUnit_through site

theorem nameless_flatMap {α β : Type} {R : α → β → Prop} {xs : List α} {ys : List β}
    {f : α → List Diagnostic} {g : β → List Diagnostic} (h : List.Forall₂ R xs ys)
    (hall : ∀ x ∈ xs, ∀ y ∈ ys, R x y → nameless (f x) = nameless (g y)) :
    nameless (xs.flatMap f) = nameless (ys.flatMap g) := by
  induction h with
  | nil => rfl
  | @cons x y xs ys hxy _ ih =>
      have hhead := hall x List.mem_cons_self y List.mem_cons_self hxy
      have htail := ih fun x hx y hy =>
        hall x (List.mem_cons_of_mem _ hx) y (List.mem_cons_of_mem _ hy)
      rw [List.flatMap_cons, List.flatMap_cons, nameless, nameless, List.map_append,
        List.map_append]
      exact congrArg₂ (· ++ ·) hhead htail

theorem nameless_problems (unit unit' : SourceUnit) {t t' : Template}
    (h : t.inUnit "" = t'.inUnit "") :
    nameless (Included.ofUnit unit t).diagnostics =
      nameless (Included.ofUnit unit' t').diagnostics := by
  have hrenamed : ∀ (unit : SourceUnit) (t : Template),
      nameless (Included.ofUnit unit t).diagnostics =
        (bindAll (t.inUnit "") (t.inUnit "").macroTable.1).2.map
          (·.diagnostic BindProblem.message) := by
    intro unit t
    rw [Included.ofUnit, bindAll_problems_inUnit, nameless, List.map_map, List.map_map]
    rfl
  rw [hrenamed, hrenamed, h]

/-- The same tag, under the names that its unit goes by. -/
def SameTag (tag tag' : String × Span) : Prop :=
  tag.1 = tag'.1 ∧ tag.2.inUnit "" = tag'.2.inUnit ""

theorem entries_aligned {parsed parsed' : Parsed} (h : parsed.inUnit "" = parsed'.inUnit "")
    {entries entries' : List Entry} (htags : entries.map Prod.fst = includeTags parsed.template)
    (htags' : entries'.map Prod.fst = includeTags parsed'.template) :
    List.Forall₂ (fun entry entry' => SameTag entry.1 entry'.1) entries entries' := by
  have heq : (entries.map fun entry => (entry.1.1, entry.1.2.inUnit "")) =
      entries'.map fun entry => (entry.1.1, entry.1.2.inUnit "") := by
    have htemplates : includeTags (parsed.inUnit "").template =
        includeTags (parsed'.inUnit "").template := by rw [h]
    rwa [Parsed.inUnit, Parsed.inUnit, includeTags_inUnit, includeTags_inUnit, ← htags, ← htags',
      List.map_map, List.map_map] at htemplates
  have hall := List.forall₂_eq_eq_eq ▸ heq
  rw [List.forall₂_map_left_iff, List.forall₂_map_right_iff] at hall
  exact hall.imp fun entry entry' hsame => Prod.mk.inj hsame

/-- Outcomes for a place that can be compared: both depend on the stack that they were made from,
and then it is the same, or neither does. -/
structure Comparable (c : Compiler) (fs : FileSystem) (base stack stack' : List Path) (place : Path)
    (o o' : Outcome) : Prop where
  flag : o'.contextual = o.contextual
  level : o.contextual = true → stack' = stack
  ahead : o.contextual = true → Ahead c fs base stack place o ∧ Ahead c fs base stack place o'

section

include hhere

/-- Where a tag is refused, so is the same tag elsewhere, and for the same reason. -/
theorem Fits.refused {unit unit' : SourceUnit}
    (hpath : unit'.path = unit.path) {path : String} {span span' : Span} {problem : IncludeProblem}
    {share : Share} (h : Fits c fs m₀ m unit stack (path, span) (.refused problem))
    (h' : Fits c fs m₀ m' unit' stack' (path, span') share)
    (hstack : IncludeProblem.contextual problem = true ∨ share.contextual = true → stack' = stack)
    (hshare : ∀ from' o, share = .reached from' o → Built c fs m₀ m' from' o) :
    ∃ problem', share = .refused problem' ∧ problem'.message = problem.message := by
  have hsame : ∀ {found found' : Path},
      c.config.findTemplate fs path unit.path = .ok (some found) →
      c.config.findTemplate fs path unit'.path = .ok (some found') → found' = found := by
    intro found found' hfind hfind'
    rw [hpath] at hfind'
    exact Option.some.inj (Except.ok.inj (hfind'.symm.trans hfind))
  cases h with
  | missing hfind =>
      rw [← hpath] at hfind
      cases h' with
      | missing _ => exact ⟨_, rfl, rfl⟩
      | circular hfind' _ | tooDeep hfind' _ _ | unreadable hfind' _ _ _ | reached hfind' _ _ _ =>
          cases hfind.symm.trans hfind'
  | circular hfind hin =>
      obtain rfl := hstack (.inl rfl)
      cases h' with
      | missing hfind' => rw [← hpath, hfind'] at hfind; cases hfind
      | circular _ _ => exact ⟨_, rfl, rfl⟩
      | tooDeep hfind' hout _ | unreadable hfind' hout _ _ | reached hfind' hout _ _ =>
          exact absurd (hsame hfind hfind' ▸ hin) hout
  | tooDeep hfind hout hdeep =>
      obtain rfl := hstack (.inl rfl)
      cases h' with
      | missing hfind' => rw [← hpath, hfind'] at hfind; cases hfind
      | circular hfind' hin => exact absurd (hsame hfind hfind' ▸ hin) hout
      | tooDeep _ _ _ => exact ⟨_, rfl, rfl⟩
      | unreadable _ _ hdepth _ | reached _ _ hdepth _ => exact absurd hdeep (Int.not_le.mpr hdepth)
  | unreadable hfind hout hdepth hun =>
      have hfile := isFile_of_findTemplate hfind
      cases h' with
      | missing hfind' => rw [← hpath, hfind'] at hfind; cases hfind
      | circular hfind' hin =>
          obtain rfl := hstack (.inr rfl)
          exact absurd (hsame hfind hfind' ▸ hin) hout
      | tooDeep _ _ hdeep =>
          obtain rfl := hstack (.inr rfl)
          exact absurd hdeep (Int.not_le.mpr hdepth)
      | unreadable hfind' _ _ hun' =>
          obtain rfl := hsame hfind hfind'
          obtain ⟨rfl, rfl⟩ := hun.unique hhere hfile hun'
          exact ⟨_, rfl, rfl⟩
      | reached hfind' _ _ ha =>
          obtain rfl := hsame hfind hfind'
          have hbuilt := hshare _ _ rfl
          exact absurd (hun.blocked hhere hfile) (hbuilt.not_blocked hhere ha.unit)

/-- Two shares of one tag agree if the outcomes do that they reach. -/
theorem Fits.agree {unit unit' : SourceUnit}
    (hpath : unit'.path = unit.path) {tag tag' : String × Span} (htag : SameTag tag tag')
    {share share' : Share} (h : Fits c fs m₀ m unit stack tag share)
    (h' : Fits c fs m₀ m' unit' stack' tag' share')
    (hstack : share.contextual = true ∨ share'.contextual = true → stack' = stack)
    (hshare : ∀ from' o, share = .reached from' o → Built c fs m₀ m from' o)
    (hshare' : ∀ from' o, share' = .reached from' o → Built c fs m₀ m' from' o)
    (hreached : ∀ from' o from'' o', share = .reached from' o → share' = .reached from'' o' →
      nameless o.compilation.diagnostics = nameless o'.compilation.diagnostics) :
    nameless (share.diagnostics tag.2) = nameless (share'.diagnostics tag'.2) := by
  obtain ⟨path, span⟩ := tag
  obtain ⟨path', span'⟩ := tag'
  obtain ⟨rfl, hspan⟩ : path = path' ∧ span.inUnit "" = span'.inUnit "" := htag
  cases share with
  | refused problem =>
      obtain ⟨problem', rfl, hmessage⟩ := h.refused hhere hpath h' hstack hshare'
      simp only [Share.diagnostics, nameless, List.map_cons, List.map_nil, Diagnostic.inUnit, hspan,
        hmessage]
  | reached from' o =>
      cases share' with
      | refused problem =>
          have hback := fun hcontextual => (hstack (Or.symm hcontextual)).symm
          obtain ⟨_, hrefused, -⟩ := h'.refused hhere hpath.symm h hback hshare
          cases hrefused
      | reached from'' o' =>
          rw [(hshare from' o rfl).diagnostics_reached, (hshare' from'' o' rfl).diagnostics_reached,
            nameless_through, nameless_through, hspan, hreached from' o from'' o' rfl rfl]

/-- Two compilers that come to a file from the same stack both have an outcome that depends on it,
or neither has. -/
theorem Arrives.comparable (hm : Extends c fs base m₀ m)
    (hm' : Extends c fs base m₀ m') {from' from'' : List Path} (h : Built c fs m₀ m from' o)
    (h' : Built c fs m₀ m' from'' o') (ha : Arrives fs m₀ m stack place from' o)
    (ha' : Arrives fs m₀ m' stack' place from'' o')
    (hahead : o.contextual = true ∨ o'.contextual = true →
      stack' = stack ∧ Ahead c fs base stack place o ∧ Ahead c fs base stack place o') :
    Comparable c fs base from' from'' place o o' := by
  have hflag : o'.contextual = o.contextual := by
    cases hflag : o.contextual with
    | true =>
        by_contra hplain
        obtain ⟨rfl, hleft, -⟩ := hahead (.inl hflag)
        obtain rfl := ha.here hflag
        have hnone := h.lookup_eq_none hhere hm' hflag ha.unit (ha.new hflag) hleft
        cases hnone.symm.trans (ha'.kept (Bool.eq_false_iff.mpr hplain))
    | false =>
        by_contra hcontextual
        have hflag' := Bool.eq_true_of_not_eq_false hcontextual
        obtain ⟨rfl, -, hright⟩ := hahead (.inr hflag')
        obtain rfl := ha'.here hflag'
        have hnone := h'.lookup_eq_none hhere hm hflag' ha'.unit (ha'.new hflag') hright
        cases hnone.symm.trans (ha.kept hflag)
  refine ⟨hflag, fun hcontextual => ?_, fun hcontextual => ?_⟩
  · rw [ha.here hcontextual, ha'.here (hflag.trans hcontextual)]
    exact (hahead (.inl hcontextual)).1
  · rw [ha.here hcontextual]
    exact (hahead (.inl hcontextual)).2

section

variable {comp comp' : Compilation} {delimiters delimiters' : Delimiters} {parsed parsed' : Parsed}
  {entries entries' : List Entry}

/-- What two comparable outcomes reach through the same tag is comparable. -/
theorem Itemized.comparable (hm : Extends c fs base m₀ m)
    (hm' : Extends c fs base m₀ m') (h : Itemized c fs m₀ m stack comp delimiters parsed entries)
    (h' : Itemized c fs m₀ m' stack' comp' delimiters' parsed' entries')
    (hunit : FileUnit fs comp.unit place) (hunit' : FileUnit fs comp'.unit place)
    (hread : ¬ Blocked c fs place)
    (hcomparable : Comparable c fs base stack stack' place ⟨comp, entries.any (·.2.contextual)⟩
      ⟨comp', entries'.any (·.2.contextual)⟩)
    {entry entry' : Entry} (hentry : entry ∈ entries) (hentry' : entry' ∈ entries')
    (hsame : SameTag entry.1 entry'.1) {from' from'' : List Path}
    (hshare : entry.2 = .reached from' o) (hshare' : entry'.2 = .reached from'' o')
    (hbuilt : Built c fs m₀ m from' o) (hbuilt' : Built c fs m₀ m' from'' o') :
    ∃ next, FileUnit fs o.compilation.unit next ∧ FileUnit fs o'.compilation.unit next ∧
      Comparable c fs base from' from'' next o o' := by
  obtain ⟨found, hfind, hout, -, ha⟩ := (h.fits entry hentry).arrives hshare
  obtain ⟨found', hfind', hout', -, ha'⟩ := (h'.fits entry' hentry').arrives hshare'
  have hpath : comp'.unit.path = comp.unit.path := hunit'.path.trans hunit.path.symm
  obtain rfl : found' = found := by
    rw [hpath, ← hsame.1, hfind] at hfind'
    exact (Option.some.inj (Except.ok.inj hfind')).symm
  rw [hunit.path] at hout ha
  rw [hunit'.path] at hout' ha'
  refine ⟨fs.resolve found', ha.unit, ha'.unit, ha.comparable hhere hm hm' hbuilt hbuilt' ha' ?_⟩
  intro hcontextual
  have hany : entries.any (·.2.contextual) = true := by
    rcases hcontextual with hleft | hright
    · exact List.any_eq_true.mpr ⟨entry, hentry, by rw [hshare]; exact hleft⟩
    · refine hcomparable.flag.symm.trans (List.any_eq_true.mpr ⟨entry', hentry', ?_⟩)
      rw [hshare']
      exact hright
  obtain rfl := hcomparable.level hany
  obtain ⟨hleft, hright⟩ := hcomparable.ahead hany
  exact ⟨rfl, h.ahead hhere hunit hread hleft hentry hfind hout hshare hbuilt,
    h'.ahead hhere hunit' hread hright hentry' hfind' hout' hshare' hbuilt'⟩

end

/-- Comparable outcomes for a file agree. -/
theorem Built.agree (hm : Extends c fs base m₀ m)
    (hm' : Extends c fs base m₀ m') (h : Built c fs m₀ m stack o) (h' : Built c fs m₀ m' stack' o')
    (hunit : FileUnit fs o.compilation.unit place) (hunit' : FileUnit fs o'.compilation.unit place)
    (hcomparable : Comparable c fs base stack stack' place o o') :
    nameless o.compilation.diagnostics = nameless o'.compilation.diagnostics := by
  have hread := h.not_blocked hhere hunit
  induction h generalizing stack' o' place with
  | @broken _ comp delimiters parsed hreads hne _ hdiagnostics =>
      have hat := hunit.readsAt hhere hreads
      cases h' with
      | broken hreads' _ _ hdiagnostics' =>
          obtain ⟨rfl, heq⟩ := hat.unique (hunit'.readsAt hhere hreads')
          dsimp only
          rw [hdiagnostics, hdiagnostics', hunit.leadBack_eq, hunit'.leadBack_eq, nameless,
            nameless, ← Parsed.diagnostics_inUnit, ← Parsed.diagnostics_inUnit, heq]
      | clean h' _ =>
          have hat' := h'.readsAt hhere hunit'
          obtain ⟨-, heq⟩ := hat.unique hat'.1
          rw [← heq] at hat'
          exact absurd (List.map_eq_nil_iff.mp hat'.2) hne
  | @clean stack comp _ parsed entries h hshares ih =>
      have hat := h.readsAt hhere hunit
      cases h' with
      | broken hreads' hne' _ _ =>
          obtain ⟨-, heq⟩ := hat.1.unique (hunit'.readsAt hhere hreads')
          rw [heq] at hat
          exact absurd (List.map_eq_nil_iff.mp hat.2) hne'
      | @clean _ comp' _ parsed' entries' h' hshares' =>
          obtain ⟨-, heq⟩ := hat.1.unique (h'.readsAt hhere hunit').1
          dsimp only
          rw [h.diagnostics_eq hunit, h'.diagnostics_eq hunit', nameless, nameless, List.map_append,
            List.map_append]
          refine congrArg₂ (· ++ ·) ?_ ?_
          · exact nameless_problems comp.unit comp'.unit (congrArg Parsed.template heq)
          · refine nameless_flatMap (entries_aligned heq h.tags h'.tags) ?_
            intro entry hentry entry' hentry' hsame
            have hpath : comp'.unit.path = comp.unit.path := hunit'.path.trans hunit.path.symm
            refine Fits.agree hhere hpath hsame (h.fits entry hentry) (h'.fits entry' hentry') ?_
              (hshares entry hentry) (hshares' entry' hentry') ?_
            · intro hcontextual
              rw [hpath, hcomparable.level]
              rcases hcontextual with hleft | hright
              · exact List.any_eq_true.mpr ⟨entry, hentry, hleft⟩
              · exact hcomparable.flag.symm.trans (List.any_eq_true.mpr ⟨entry', hentry', hright⟩)
            · intro from' o from'' o' hshare hshare'
              have hbuilt := hshares entry hentry from' o hshare
              have hbuilt' := hshares' entry' hentry' from'' o' hshare'
              obtain ⟨next, hnext, hnext', hbelow⟩ := h.comparable hhere hm hm' h' hunit hunit'
                hread hcomparable hentry hentry' hsame hshare hshare' hbuilt hbuilt'
              exact ih entry hentry from' o hshare hbuilt' hnext hnext' hbelow
                (hbuilt.not_blocked hhere hnext)

end

end Compiler

end TemplateCompiler
