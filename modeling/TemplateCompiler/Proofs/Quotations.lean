import TemplateCompiler.Proofs.FileNames
import TemplateCompiler.Proofs.Trails

/-!
# The texts behind a report

A report quotes, for each place that it shows, the text that the compilation keeps under the name of
the unit. All that the include tags of a unit bring along is added behind its own text, and of texts
of one name the last one stays.

For files this is the text that was parsed: a name leads to one file. An inline source has the name
that its caller gave it. If it includes a file that goes by that name, directly or not, then the
text of the file is kept, and the places of the inline source are shown in the lines of the file.
`requests_quoted` says that nothing else can go wrong, whatever was asked before.
-/

namespace TemplateCompiler

/-! ## Adding texts -/

section

variable {sources more : Report.Sources} {name text : String}

theorem lookup_map_replace (n : String) :
    (sources.map fun entry => if entry.1 = name then (name, text) else entry).lookup n =
      if n = name then (sources.lookup name).map fun _ => text else sources.lookup n := by
  induction sources with
  | nil => simp
  | cons entry sources ih =>
      obtain ⟨key, old⟩ := entry
      rw [List.map_cons, List.lookup_cons, ih]
      by_cases hkey : key = name <;> by_cases hn : n = name
      · simp [hkey, hn]
      · simp [hkey, hn, List.lookup_cons, beq_false_of_ne hn]
      · simp [hkey, hn, List.lookup_cons, beq_false_of_ne (Ne.symm hkey)]
      · simp [hkey, hn, List.lookup_cons]

theorem lookup_addSources_singleton (n : String) :
    (addSources sources [(name, text)]).lookup n =
      ([(name, text)].lookup n).or (sources.lookup n) := by
  rw [addSources, addSources]
  by_cases hn : n = name
  · subst hn
    cases hold : sources.lookup n with
    | some old => simp [lookup_map_replace, hold]
    | none => simp [List.lookup_append, hold]
  · have hnew : [(name, text)].lookup n = none := by simp [List.lookup_cons, beq_false_of_ne hn]
    rw [hnew, Option.none_or]
    split
    · rw [lookup_map_replace, if_neg hn]
    · rw [List.lookup_append, hnew, Option.or_none]

/-- The last text of a name is found. -/
theorem lookup_addSources (n : String) :
    (addSources sources more).lookup n = (more.reverse.lookup n).or (sources.lookup n) := by
  induction more generalizing sources with
  | nil => rfl
  | cons entry more ih =>
      change (addSources (addSources sources [entry]) more).lookup n = _
      rw [ih, lookup_addSources_singleton, List.reverse_cons, List.lookup_append, Option.or_assoc]

theorem addSources_append (last : Report.Sources) :
    addSources sources (more ++ last) = addSources (addSources sources more) last := by
  induction more generalizing sources with
  | nil => rfl
  | cons entry more ih => exact ih

theorem mem_addSources {entry : String × String} (h : entry ∈ addSources sources more) :
    entry ∈ sources ∨ entry ∈ more := by
  induction more generalizing sources with
  | nil => exact .inl h
  | cons new more ih =>
      obtain ⟨name, text⟩ := new
      rcases ih h with hstep | hmore
      · have hold : entry ∈ sources ∨ entry = (name, text) := by
          split at hstep
          · obtain ⟨old, hmem, rfl⟩ := List.mem_map.mp hstep
            split
            · exact .inr rfl
            · exact .inl hmem
          · exact (List.mem_append.mp hstep).imp_right List.mem_singleton.mp
        refine hold.imp_right ?_
        rintro rfl
        exact List.mem_cons_self
      · exact .inr (List.mem_cons_of_mem _ hmore)

end

/-! ## Marked places -/

/-- The places that a diagnostic about a parsed source points at: those of the complaints, of the
first rule that a call breaks, and of the include tags. -/
inductive Parsed.Marks (p : Parsed) : Span → Prop
  | complaint {problem} (h : problem ∈ p.complaints) : Marks p problem.span
  | call {place call problem} (h : p.template.SiteAt p.template.macroTable.1 place call)
      (hbreaks : Breaks p.template.macroTable.1 call problem) : Marks p problem.span
  | tag {path name span} (h : p.template.NodeAt path (.inclusion name span)) : Marks p span

/-- A call of a parsed template is refused for the first rule that it breaks. -/
theorem breaks_of_bind {setting : Parser.Setting} {delimiters : Delimiters} {source : String}
    {parsed : Parsed} (h : parse setting delimiters source = .ok parsed) {call : MacroCall}
    {problem : Located BindProblem}
    (hbind : bind parsed.template.macroTable.1 call = .error problem) :
    Breaks parsed.template.macroTable.1 call problem := by
  have hrules : BindsByRules parsed.template.macroTable.1 call :=
    bindsByRules_of_nodup fun _ hd => (parse_composes h).params_nodup (MacroTable.lookup?_some hd).1
  exact (hrules.problem problem).mp hbind

namespace Compiler

open Relation (ReflTransGen TransGen)

/-- A place that is found in parsing a unit. -/
def MarkedIn (c : Compiler) (unit : SourceUnit) (site : Span) : Prop :=
  ∃ delimiters parsed, Reads c unit delimiters parsed ∧ parsed.Marks site

section

variable {c : Compiler} {unit : SourceUnit} {delimiters : Delimiters} {parsed : Parsed}

theorem Reads.marks_complaint (h : Reads c unit delimiters parsed) {d : Diagnostic}
    (hd : d ∈ parsed.diagnostics delimiters) : MarkedIn c unit d.span := by
  obtain ⟨complaint, hcomplaint, rfl⟩ := List.mem_map.mp hd
  exact ⟨delimiters, parsed, h, .complaint hcomplaint⟩

theorem Reads.marks_problem (h : Reads c unit delimiters parsed) {d : Diagnostic}
    (hd : d ∈ (Included.ofUnit unit parsed.template).diagnostics) : MarkedIn c unit d.span := by
  obtain ⟨problem, hproblem, rfl⟩ := List.mem_map.mp hd
  rw [bindAll_eq (parse_spans_nodup h.parses _)] at hproblem
  obtain ⟨call, hcall, hrefused⟩ := List.mem_filterMap.mp hproblem
  obtain ⟨place, hplace⟩ := (parsed.template.callSites_enumerates _).mem_iff.mp hcall
  have hbreaks := breaks_of_bind h.parses (bind_of_problem? hrefused)
  exact ⟨delimiters, parsed, h, .call hplace hbreaks⟩

theorem Reads.marks_tag (h : Reads c unit delimiters parsed) {tag : String × Span}
    (htag : tag ∈ includeTags parsed.template) : MarkedIn c unit tag.2 := by
  obtain ⟨path, hpath⟩ := (Template.walkAll_enumerates _).mem_iff.mp (mem_includeTags.mp htag)
  exact ⟨delimiters, parsed, h, .tag hpath⟩

end

/-! ## Texts -/

/-- A file that an include tag of a unit leads to. -/
def Embeds (c : Compiler) (fs : FileSystem) (unit file : SourceUnit) : Prop :=
  ∃ tag place, TagTo c fs unit tag place ∧ FileUnit fs file place

variable {c : Compiler} {fs : FileSystem} {m₀ m : Memory} {stack from' : List Path}
  {unit file file' : SourceUnit} {o : Outcome}

variable (hnames : fs.WellNamed)

theorem Embeds.exists_fileUnit (h : TransGen (Embeds c fs) unit file) :
    ∃ place, FileUnit fs file place := by
  cases h with
  | single h | tail _ h =>
      obtain ⟨tag, place, -, hfile⟩ := h
      exact ⟨place, hfile⟩

include hnames in
theorem FileUnit.text_eq {place place' : Path} (h : FileUnit fs file place)
    (h' : FileUnit fs file' place') (hname : file.name = file'.name) : file.text = file'.text := by
  obtain ⟨p, -, hp, hread⟩ := h.text
  obtain ⟨p', -, hp', hread'⟩ := h'.text
  exact hnames.text_eq hread hread' (by rw [← hp, hname, hp'])

/-- What the include tags of a unit bring along. -/
def brought (entries : List Entry) : Report.Sources :=
  entries.flatMap fun entry => entry.2.sources

theorem Included.sources_foldl (entries : List Entry) (done : Included) :
    (entries.foldl add done).sources = addSources done.sources (brought entries) := by
  induction entries generalizing done with
  | nil => rfl
  | cons entry entries ih =>
      rw [List.foldl_cons, ih]
      exact (addSources_append (brought entries)).symm

theorem mem_brought {entries : List Entry} {text : String × String} :
    text ∈ brought entries ↔ ∃ entry ∈ entries, ∃ from' o, entry.2 = .reached from' o ∧
      text ∈ o.compilation.sources := by
  rw [brought, List.mem_flatMap]
  refine exists_congr fun entry => and_congr_right fun _ => ?_
  constructor
  · intro h
    cases hshare : entry.2 with
    | refused problem =>
        rw [hshare] at h
        cases h
    | reached from' o =>
        rw [hshare] at h
        exact ⟨from', o, rfl, h⟩
  · rintro ⟨from', o, hshare, h⟩
    rw [hshare]
    exact h

/-- All that is brought along are texts of files under their names. -/
def BringsFiles (c : Compiler) (fs : FileSystem) (unit : SourceUnit) (entries : List Entry) :
    Prop :=
  ∀ text ∈ brought entries, ∃ file, TransGen (Embeds c fs) unit file ∧ text = (file.name, file.text)

/-- Every text that is kept is that of the unit or of a file it includes, under its name. -/
def KeepsTexts (c : Compiler) (fs : FileSystem) (comp : Compilation) : Prop :=
  ∀ text ∈ comp.sources, ∃ unit, ReflTransGen (Embeds c fs) comp.unit unit ∧
    text = (unit.name, unit.text)

section

variable {comp : Compilation} {delimiters : Delimiters} {parsed : Parsed} {entries : List Entry}

theorem Itemized.embeds (h : Itemized c fs m₀ m stack comp delimiters parsed entries)
    {entry : Entry} (hentry : entry ∈ entries) (hshare : entry.2 = .reached from' o) :
    Embeds c fs comp.unit o.compilation.unit := by
  obtain ⟨place, htag, -, -, harrives⟩ := h.arrives hentry hshare
  exact ⟨entry.1, place, htag, harrives.unit⟩

theorem Itemized.bringsFiles (h : Itemized c fs m₀ m stack comp delimiters parsed entries)
    (htexts : ∀ entry ∈ entries, ∀ from' o, entry.2 = .reached from' o →
      KeepsTexts c fs o.compilation) : BringsFiles c fs comp.unit entries := by
  intro text htext
  obtain ⟨entry, hentry, from', o, hshare, htext⟩ := mem_brought.mp htext
  obtain ⟨file, hbelow, heq⟩ := htexts entry hentry from' o hshare text htext
  exact ⟨file, .head' (h.embeds hentry hshare) hbelow, heq⟩

theorem Itemized.sources_eq (h : Itemized c fs m₀ m stack comp delimiters parsed entries) :
    comp.sources = addSources comp.unit.sources (brought entries) := by
  rw [h.ends.sources, Included.sources_foldl]
  rfl

theorem Built.keepsTexts (h : Built c fs m₀ m stack o) : KeepsTexts c fs o.compilation := by
  induction h with
  | @broken _ comp _ _ _ _ _ _ hsources =>
      intro text htext
      rw [hsources] at htext
      exact ⟨comp.unit, .refl, List.mem_singleton.mp htext⟩
  | @clean _ comp _ _ _ h _ ih =>
      intro text htext
      rw [h.sources_eq] at htext
      rcases mem_addSources htext with hown | hbrought
      · exact ⟨comp.unit, .refl, List.mem_singleton.mp hown⟩
      · obtain ⟨file, hfile, heq⟩ := h.bringsFiles ih text hbrought
        exact ⟨file, hfile.to_reflTransGen, heq⟩

end

/-! ## Quoted places -/

/-- A place is shown in the text in which it was found. -/
def Quotes (c : Compiler) (fs : FileSystem) (comp : Compilation) (site : Span) : Prop :=
  ∃ unit, ReflTransGen (Embeds c fs) comp.unit unit ∧ MarkedIn c unit site ∧
    comp.sources.lookup site.unit = some unit.text

/-- A place of the unit itself is shown in another text: that of a file which goes by the name of
the unit. -/
def Masked (c : Compiler) (fs : FileSystem) (comp : Compilation) (site : Span) : Prop :=
  MarkedIn c comp.unit site ∧ ∃ file, TransGen (Embeds c fs) comp.unit file ∧
    file.name = comp.unit.name ∧ file.text ≠ comp.unit.text ∧
    comp.sources.lookup site.unit = some file.text

section

variable {comp : Compilation} {delimiters : Delimiters} {parsed : Parsed} {entries : List Entry}
  {site : Span}

include hnames in
/-- Files do not mask each other. -/
theorem Masked.not_fileUnit (h : Masked c fs comp site) (place : Path) :
    ¬ FileUnit fs comp.unit place := by
  intro hunit
  obtain ⟨-, file, hfile, hname, hne, -⟩ := h
  obtain ⟨place', hfile⟩ := Embeds.exists_fileUnit hfile
  exact hne (hfile.text_eq hnames hunit hname)

/-- What is brought along comes before the text of the unit. -/
theorem Itemized.lookup_sources (h : Itemized c fs m₀ m stack comp delimiters parsed entries)
    (name : String) : comp.sources.lookup name =
      ((brought entries).reverse.lookup name).or (comp.unit.sources.lookup name) := by
  rw [h.sources_eq, lookup_addSources]

/-- A place of the unit is shown in its text, unless that is masked. -/
theorem Itemized.own_site (h : Itemized c fs m₀ m stack comp delimiters parsed entries)
    (hfiles : BringsFiles c fs comp.unit entries) (hmarked : MarkedIn c comp.unit site)
    (hname : site.unit = comp.unit.name) :
    Quotes c fs comp site ∨ Masked c fs comp site := by
  have hlookup := h.lookup_sources site.unit
  cases hbrought : (brought entries).reverse.lookup site.unit with
  | none =>
      refine .inl ⟨comp.unit, .refl, hmarked, ?_⟩
      rw [hlookup, hbrought, Option.none_or, hname]
      exact List.lookup_cons_self
  | some text =>
      rw [hbrought, Option.some_or] at hlookup
      obtain ⟨file, hfile, heq⟩ := hfiles _ (List.mem_reverse.mp (mem_of_lookup hbrought))
      obtain ⟨hfileName, rfl⟩ := Prod.mk.inj heq
      by_cases htext : file.text = comp.unit.text
      · exact .inl ⟨comp.unit, .refl, hmarked, htext ▸ hlookup⟩
      · exact .inr ⟨hmarked, file, hfile, hfileName.symm.trans hname, htext, hlookup⟩

include hnames in
/-- A place that is shown right in an included file stays so. -/
theorem Itemized.site_below (h : Itemized c fs m₀ m stack comp delimiters parsed entries)
    (hfiles : BringsFiles c fs comp.unit entries) {entry : Entry} (hentry : entry ∈ entries)
    (hshare : entry.2 = .reached from' o) (hsite : Quotes c fs o.compilation site) :
    Quotes c fs comp site := by
  obtain ⟨unit, hbelow, hmarked, hlookup⟩ := hsite
  refine ⟨unit, hbelow.head (h.embeds hentry hshare), hmarked, ?_⟩
  have hmem : (site.unit, unit.text) ∈ brought entries :=
    mem_brought.mpr ⟨entry, hentry, from', o, hshare, mem_of_lookup hlookup⟩
  have hkey : ((brought entries).reverse.lookup site.unit).isSome := by
    rw [lookup_isSome_iff_mem]
    exact List.mem_map_of_mem (List.mem_reverse.mpr hmem)
  obtain ⟨text, hlast⟩ := Option.isSome_iff_exists.mp hkey
  -- both are texts of files under one name
  obtain ⟨file, hfile, heq⟩ := hfiles _ hmem
  obtain ⟨file', hfile', heq'⟩ := hfiles _ (List.mem_reverse.mp (mem_of_lookup hlast))
  obtain ⟨place, hfile⟩ := Embeds.exists_fileUnit hfile
  obtain ⟨place', hfile'⟩ := Embeds.exists_fileUnit hfile'
  obtain ⟨hname, htext⟩ := Prod.mk.inj heq
  obtain ⟨hname', rfl⟩ := Prod.mk.inj heq'
  rw [h.lookup_sources, hlast, htext, hfile'.text_eq hnames hfile (hname'.symm.trans hname)]
  rfl

end

/-- All places of the diagnostics, but for the origin of the unit. -/
def AllSites (comp : Compilation) (P : Span → Prop) : Prop :=
  ∀ d ∈ comp.diagnostics, ∃ sites, d.secondary = sites ++ comp.unit.origin.toList ∧
    ∀ site ∈ d.span :: sites, P site

theorem AllSites.of_leadBack {comp : Compilation} {diagnostics : List Diagnostic}
    {P : Span → Prop} (hdiagnostics : comp.diagnostics = leadBack comp.unit diagnostics)
    (h : ∀ d ∈ diagnostics, ∀ site ∈ d.sites, P site) : AllSites comp P := by
  intro d hd
  rw [hdiagnostics] at hd
  obtain ⟨inner, hinner, hspan, hsecondary⟩ := mem_leadBack hd
  refine ⟨inner.secondary, hsecondary, ?_⟩
  rw [hspan]
  exact h inner hinner

theorem AllSites.imp {comp : Compilation} {P Q : Span → Prop} (h : AllSites comp P)
    (hPQ : ∀ site, P site → Q site) : AllSites comp Q := by
  intro d hd
  obtain ⟨sites, hsecondary, hsites⟩ := h d hd
  exact ⟨sites, hsecondary, fun site hsite => hPQ site (hsites site hsite)⟩

include hnames in
theorem Built.allSites (h : Built c fs m₀ m stack o) : AllSites o.compilation fun site =>
      Quotes c fs o.compilation site ∨ Masked c fs o.compilation site := by
  induction h with
  | @broken _ comp _ _ hreads _ _ hdiagnostics hsources =>
      refine .of_leadBack hdiagnostics fun d hd site hsite => ?_
      have hmarked := hreads.marks_complaint hd
      have hname := hreads.unit_of_complaint hd
      obtain ⟨complaint, -, rfl⟩ := List.mem_map.mp hd
      obtain rfl := List.mem_singleton.mp hsite
      refine .inl ⟨comp.unit, .refl, hmarked, ?_⟩
      rw [hsources, hname]
      exact List.lookup_cons_self
  | @clean _ comp _ parsed entries h hshares ih =>
      have hfiles := h.bringsFiles fun entry hentry from' o hshare =>
        (hshares entry hentry from' o hshare).keepsTexts
      refine .of_leadBack h.ends.diagnostics fun d hd site hsite => ?_
      rw [Included.diagnostics_foldl] at hd
      rcases List.mem_append.mp hd with hproblem | hincluded
      · have hmarked := h.reads.marks_problem hproblem
        have hname := h.reads.unit_of_problem hproblem
        obtain ⟨problem, -, rfl⟩ := List.mem_map.mp hproblem
        obtain rfl := List.mem_singleton.mp hsite
        exact h.own_site hfiles hmarked hname
      · obtain ⟨⟨tag, share⟩, hentry, hd⟩ := List.mem_flatMap.mp hincluded
        have htag : tag ∈ includeTags parsed.template := h.tags ▸ List.mem_map_of_mem hentry
        have hown := h.own_site hfiles (h.reads.marks_tag htag) (h.reads.unit_of_tag htag)
        cases share with
        | refused problem =>
            obtain rfl := List.mem_singleton.mp hd
            obtain rfl := List.mem_singleton.mp hsite
            exact hown
        | reached from' o =>
            rw [(hshares _ hentry from' o rfl).diagnostics_reached] at hd
            obtain ⟨inner, hinner, rfl⟩ := List.mem_map.mp hd
            obtain ⟨place, -, -, -, harrives⟩ := h.arrives hentry rfl
            obtain ⟨sites, hsecondary, hsites⟩ := ih _ hentry from' o rfl inner hinner
            rw [harrives.unit.origin, Option.toList_none, List.append_nil] at hsecondary
            obtain rfl := hsecondary
            have hsite : site ∈ inner.sites ++ [tag.2] := hsite
            rcases List.mem_append.mp hsite with hbelow | htag
            · refine .inl (h.site_below hnames hfiles hentry rfl ?_)
              exact (hsites site hbelow).resolve_right fun hmasked =>
                hmasked.not_fileUnit hnames place harrives.unit
            · obtain rfl := List.mem_singleton.mp htag
              exact hown

/-! ## Requests -/

/-- What a report of a compilation quotes. -/
structure Quoted (c : Compiler) (fs : FileSystem) (r : Request) (comp : Compilation) : Prop where
  asked : r.Asks fs comp.unit
  sites : AllSites comp fun site => Quotes c fs comp site ∨ Masked c fs comp site
  /-- No text is masked where a file was asked for. -/
  files : ∀ p, r = .file p → AllSites comp (Quotes c fs comp)

/-- Whatever was asked before, the places of every diagnostic are shown in the texts in which they
were found, but for those of an inline source that includes a file of its own name. -/
theorem requests_quoted (c : Compiler) (fs : FileSystem) (hnames : fs.WellNamed)
    (history : List Request) (r : Request) (comp : Compilation) (s' : State)
    (hrun : r.perform c fs (State.after c fs history) = .ok comp s') : Quoted c fs r comp := by
  have hold := State.accounted_after c fs history
  cases r with
  | file p =>
      obtain ⟨-, o, from', rfl, harrives, hbuilt⟩ :=
        (compileFile_ends p hold Memory.Kept.refl).of_ok hrun
      have hsites := hbuilt.allSites hnames
      refine ⟨harrives.unit, hsites, fun _ _ => hsites.imp fun site hsite => ?_⟩
      exact hsite.resolve_right fun hmasked => hmasked.not_fileUnit hnames _ harrives.unit
  | source text name origin path =>
      obtain ⟨-, hunit, o, from', rfl, -, hbuilt⟩ :=
        (compileSource_ends text name origin path hold Memory.Kept.refl).of_ok hrun
      exact ⟨hunit, hbuilt.allSites hnames, nofun⟩

/-- An inline source that goes by the name of a file it includes, and a faulty file behind it: the
text of the source is masked, that of the faulty file is quoted. -/
theorem quoted_of_masking_file :
    let inner := "\x7b% include 'none' %\x7d"
    let fs : FileSystem :=
      ⟨[], [(["t"], .directory), (["t", "a"], .file inner.toUTF8.toList),
        (["t", "b"], .file "hello".toUTF8.toList)]⟩
    let c : Compiler := ⟨.withDirs [.ofString "t"], none, none, 16⟩
    let host : Span := ⟨.initial, .initial, "host"⟩
    let r : Request := .source
      "\x7b% include 'b' %\x7d\x7b% include 'a' %\x7d\x7b% include 'c' %\x7d" "t/b" (some host) none
    fs.WellNamed ∧ ∃ comp s',
      r.perform c fs (State.after c fs [.file (.ofString "t/b")]) = .ok comp s' ∧
        comp.diagnostics.map (·.sites.map Span.unit) = [["t/a", "t/b", "host"], ["t/b", "host"]] ∧
        comp.sources = [("t/b", "hello"), ("t/a", inner)] ∧ Quoted c fs r comp := by
  intro inner fs c host r
  have hnames : fs.WellNamed := by decide
  obtain ⟨comp, s', hrun, hanswer⟩ := Ends.exists_of_run_map
    (p := r.perform c fs) (s := State.after c fs [.file (.ofString "t/b")])
    (f := fun comp : Compilation => (comp.diagnostics.map (·.sites.map Span.unit), comp.sources))
    (b := ([["t/a", "t/b", "host"], ["t/b", "host"]], [("t/b", "hello"), ("t/a", inner)]))
    (by decide +kernel)
  obtain ⟨hsites, hsources⟩ := Prod.mk.inj hanswer
  exact ⟨hnames, comp, s', hrun, hsites, hsources,
    requests_quoted c fs hnames [.file (.ofString "t/b")] r comp s' hrun⟩

end Compiler

end TemplateCompiler
