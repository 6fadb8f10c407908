import TemplateCompiler.Editor
import TemplateCompiler.Proofs.Configurations
import TemplateCompiler.Proofs.Excerpts
import TemplateCompiler.Proofs.PlacedTags
import TemplateCompiler.Proofs.Trails

/-!
# Diagnostics are shown in their document

The sites of a diagnostic lead out of the file where the problem is, through the files that include
one another, to the unit that was compiled: only the outermost of them lies in its text. An editor
looks for the document by its name. The names of files lead to their places, so it finds that site
unless one of the files is the document itself.

None is. A compiler that remembers nothing has the document on its stack while it compiles the files
that are included, so a tag that leads back to the document is refused. Whatever it remembers on the
way was compiled like that, too.
-/

namespace TemplateCompiler

namespace Compiler

variable {c : Compiler} {fs : FileSystem} {m : Memory} {base stack from' : List Path}
  {unit : SourceUnit} {place : Path} {o : Outcome}

variable (hhere : ".." ∉ fs.here) (hfs : fs.WellNamed)

/-! ## Files by their names -/

section

include hfs

/-- The name of a file leads to it. -/
theorem FileUnit.resolve_name (h : FileUnit fs unit place) :
    fs.resolve (.ofString unit.name) = place := by
  obtain ⟨p, hplace, hname, htext⟩ := h.text
  rw [hname, Path.ofString_toString (hfs.isPart_of_readText htext), hplace]

/-- The sites on a trail but the last are in the files on it. -/
theorem Trail.sites_eq {places : List Path} {sites : List Span} {span : Span}
    (h : Trail c fs unit places sites span) :
    ∃ inner site, span :: sites = inner ++ [site] ∧ site.unit = unit.name ∧
      places = inner.map fun s => fs.resolve (.ofString s.unit) := by
  induction h with
  | @here unit span hunit => exact ⟨[], span, rfl, hunit, rfl⟩
  | @through unit next path site place places sites span htag hnext _ ih =>
      obtain ⟨inner, last, hsites, hlast, rfl⟩ := ih
      refine ⟨inner ++ [last], site, ?_, htag.named, ?_⟩
      · rw [← List.cons_append, hsites]
      · rw [List.map_append, List.map_singleton, hlast, hnext.resolve_name hfs]

end

/-! ## What is reached below a stack -/

/-- The compilation of a file that is reached was made with these places on the stack, now or before
it was remembered. -/
theorem Arrives.built_below (hm : Extends c fs base [] m) (hbase : base ⊆ stack)
    (ha : Arrives fs [] m stack place from' o) (hbuilt : Built c fs [] m from' o) :
    ∃ below o', o'.compilation = o.compilation ∧ Built c fs [] m below o' ∧
      base ⊆ below ++ o.compilation.unit.path.toList := by
  cases hcontextual : o.contextual with
  | true =>
      refine ⟨from', o, rfl, hbuilt, ?_⟩
      rw [ha.here hcontextual]
      exact List.subset_append_of_subset_left _ hbase
  | false =>
      rcases hm.added _ _ (ha.kept hcontextual) with hold | ⟨_, below, hbelow, hbuilt'⟩
      · cases hold
      · exact ⟨below, ⟨o.compilation, false⟩, rfl, hbuilt', hbelow⟩

/-- The outermost site of a diagnostic is in the text of a unit, and the others are in files that
are at none of these places. -/
structure ComesOut (fs : FileSystem) (base : List Path) (unit : SourceUnit) (d : Diagnostic)
    (inner : List Span) (site : Span) : Prop where
  sites : d.sites = inner ++ [site]
  placed : site.PlacedIn unit.text.toList unit.name
  elsewhere : ∀ s ∈ inner, fs.resolve (.ofString s.unit) ∉ base

/-- A diagnostic of the unit itself. -/
theorem ComesOut.own {d : Diagnostic} (h : d.span.PlacedIn unit.text.toList unit.name)
    (hsecondary : d.secondary = []) : ComesOut fs base unit d [] d.span where
  sites := by
    rw [Diagnostic.sites, hsecondary]
    rfl
  placed := h
  elsewhere := nofun

/-- What is found wrong with the text of the unit, or with its calls, is its own. -/
theorem ComesOut.of_reads {delimiters : Delimiters} {parsed : Parsed}
    (hcheck : delimiters.check = .ok ()) (h : Reads c unit delimiters parsed) {d : Diagnostic}
    (hd : d ∈ parsed.diagnostics delimiters ∨
      d ∈ (Included.ofUnit unit parsed.template).diagnostics) :
    ComesOut fs base unit d [] d.span := by
  obtain ⟨hspan, hsecondary⟩ := parse_diagnostics_placedIn hcheck h.parses hd
  exact .own hspan hsecondary

section

include hfs

/-- Through one more include tag. -/
theorem ComesOut.through {next : SourceUnit} {d : Diagnostic}
    {inner : List Span} {last site : Span} (h : ComesOut fs base next d inner last)
    (hnext : FileUnit fs next place) (hplace : place ∉ base)
    (hsite : site.PlacedIn unit.text.toList unit.name) :
    ComesOut fs base unit (d.through site) (inner ++ [last]) site where
  sites := by
    rw [← h.sites]
    rfl
  placed := hsite
  elsewhere := by
    refine List.forall_mem_append.mpr ⟨h.elsewhere, List.forall_mem_singleton.mpr ?_⟩
    rwa [h.placed.unit, hnext.resolve_name hfs]

/-- Every diagnostic comes out in the unit that was compiled, and on the way it comes through
nothing that was on the stack all the time. -/
theorem Built.comesOut (hm : Extends c fs base [] m)
    (hchecked : ∀ delimiters, c.config.delimiters c.syntaxName = .ok delimiters →
      delimiters.check = .ok ())
    (h : Built c fs [] m stack o) (hbase : base ⊆ stack ++ o.compilation.unit.path.toList)
    (horigin : o.compilation.unit.origin = none) {d : Diagnostic}
    (hd : d ∈ o.compilation.diagnostics) :
    ∃ inner site, ComesOut fs base o.compilation.unit d inner site := by
  -- what is remembered is accounted for elsewhere, but its diagnostics have fewer sites
  induction hlength : d.secondary.length using Nat.strong_induction_on generalizing stack o d with
  | _ n ih =>
      have hback := leadBack_of_none horigin
      cases h with
      | @broken stack comp delimiters parsed hreads hne _ hdiagnostics _ =>
          rw [hdiagnostics, hback] at hd
          exact ⟨[], d.span, .of_reads (hchecked _ hreads.configured) hreads (.inl hd)⟩
      | @clean stack comp delimiters parsed entries h hshares =>
          have hcheck := hchecked _ h.reads.configured
          rw [h.ends.diagnostics, hback, Included.diagnostics_foldl] at hd
          rcases List.mem_append.mp hd with hproblem | hpart
          · exact ⟨[], d.span, .of_reads hcheck h.reads (.inr hproblem)⟩
          · obtain ⟨⟨tag, share⟩, hentry, hd⟩ := List.mem_flatMap.mp hpart
            have hsite : tag.2.PlacedIn comp.unit.text.toList comp.unit.name := by
              refine includeTags_placedIn hcheck h.reads.parses ?_
              rw [← h.tags]
              exact List.mem_map_of_mem hentry
            cases share with
            | refused problem =>
                obtain rfl := List.mem_singleton.mp hd
                exact ⟨[], tag.2, .own hsite rfl⟩
            | reached from' o' =>
                have hbuilt := hshares _ hentry from' o' rfl
                obtain ⟨after, htag, hout, -, ha⟩ := h.arrives hentry rfl
                rw [hbuilt.diagnostics_reached] at hd
                obtain ⟨d', hd', rfl⟩ := List.mem_map.mp hd
                obtain ⟨below, o'', hsame, hbuilt', hbelow⟩ := ha.built_below hm hbase hbuilt
                have hshorter : d'.secondary.length < n := by
                  rw [← hlength, Diagnostic.through, List.length_append]
                  exact Nat.lt_succ_self _
                rw [← hsame] at hd' hbelow
                have hunit : FileUnit fs o''.compilation.unit after := hsame ▸ ha.unit
                obtain ⟨inner, last, hinner⟩ :=
                  ih _ hshorter hbuilt' hbelow hunit.origin hd' rfl
                exact ⟨inner ++ [last], tag.2,
                  hinner.through hfs hunit (fun hmem => hout (hbase hmem)) hsite⟩

include hhere in
/-- Where the diagnostics of a source come out that is compiled first of all. -/
theorem compileSource_comesOut
    (hchecked : ∀ delimiters, c.config.delimiters c.syntaxName = .ok delimiters →
      delimiters.check = .ok ())
    {text name : String} {path : Path} {comp : Compilation} {s' : State}
    (hrun : c.compileSource fs text name none (some path) {} = .ok comp s') :
    ∀ d ∈ comp.diagnostics, ∃ inner site,
      ComesOut fs [fs.resolve path] ⟨name, text, some (fs.resolve path), none⟩ d inner site ∧
        inner.Nodup := by
  intro d hd
  obtain ⟨hextends, hunit, o, from', rfl, hfrom, hbuilt⟩ :=
    (compileSource_ends text name none (some path) Accounted.nil Memory.Kept.nil).of_ok hrun
  have hbelow : Below c fs [fs.resolve path] from' [] o := by
    refine ⟨fun _ _ _ => nofun, fun hcontextual => ?_⟩
    rw [hfrom hcontextual, hunit]
    rfl
  obtain ⟨diagnostics, hexplained, hdiagnostics⟩ := hbuilt.explained hhere hextends hbelow
  have horigin : o.compilation.unit.origin = none := by rw [hunit]
  rw [leadBack_of_none horigin] at hdiagnostics
  obtain ⟨places, htrail, hnodup⟩ := hexplained.trail List.nodup_nil (hdiagnostics ▸ hd)
  obtain ⟨inner, site, hinner⟩ :=
    hbuilt.comesOut hfs hextends hchecked (by rw [hunit]; simp) horigin hd
  refine ⟨inner, site, hunit ▸ hinner, ?_⟩
  -- both ways have the same sites
  obtain ⟨inner', site', hsites, -, rfl⟩ := htrail.sites_eq hfs
  obtain ⟨rfl, -⟩ := List.append_inj' (hinner.sites.symm.trans hsites) rfl
  rw [List.append_nil] at hnodup
  exact hnodup.of_map

end

end Compiler

namespace Editor

variable {fs : FileSystem} {doc : Document}

/-! ## Ranges -/

/-- The range does not end before its start. -/
def Range.Forward (r : Range) : Prop :=
  r.start.line < r.stop.line ∨
    r.start.line = r.stop.line ∧ r.start.character ≤ r.stop.character

/-- The range of a span in a text goes forward, and it starts on a line of the text. -/
theorem Range.of_trueIn {text : List Char} {s : Span} (h : s.TrueIn text) :
    (Range.of s).Forward ∧ (Range.of s).start.line < (Text.split '\n' text).length := by
  obtain ⟨before, line, after, hline⟩ := Report.exists_lineAt h.start.1
  obtain ⟨hnumber, hcolumn⟩ := hline.on_line h.start hline.start_le hline.le_stop
  have hforward := h.forward
  have hstart := hline.start_le
  constructor
  · by_cases hstop : s.stop.offset ≤ before.length + line.length
    · obtain ⟨hnumber', hcolumn'⟩ := hline.on_line h.stop (Nat.le_trans hstart hforward) hstop
      refine .inr ⟨?_, ?_⟩
      · simp only [Range.of, Point.of, hnumber, hnumber']
      · simp only [Range.of, Point.of, hcolumn, hcolumn']
        omega
    · have hlater := hline.line_lt h.stop (Nat.lt_of_not_le hstop)
      refine .inl ?_
      simp only [Range.of, Point.of, hnumber]
      omega
  · obtain ⟨hlt, -⟩ := List.getElem?_eq_some_iff.mp hline.getElem?_lines
    rw [Report.lines_eq_split] at hlt
    simp only [Range.of, Point.of, hnumber]
    exact hlt

/-! ## Anchors -/

theorem extract?_concat {α : Type} {p : α → Bool} {inner : List α} {a : α}
    (h : ∀ x ∈ inner, p x = false) (ha : p a = true) :
    extract? p (inner ++ [a]) = some (a, inner) := by
  induction inner with
  | nil => simp [extract?, ha]
  | cons x inner ih =>
      obtain ⟨hx, hinner⟩ := List.forall_mem_cons.mp h
      rw [List.cons_append, extract?, hx, ih hinner]
      rfl

theorem map_fst_labelledSites (d : Diagnostic) : (labelledSites d).map Prod.fst = d.sites := by
  rw [labelledSites, List.map_cons, List.map_map, Diagnostic.sites]
  exact congrArg (d.span :: ·) (List.map_id d.secondary)

/-- What a notice shows of a diagnostic. The sites are labelled, the innermost with the message. The
outermost is the only one that lies in the document. There the notice stands, and it lists the other
ones in their order. No site occurs twice. -/
structure Shows (fs : FileSystem) (doc : Document) (d : Diagnostic) (n : Notice) : Prop where
  message : n.message = d.message
  severity : n.severity = d.severity
  distinct : d.sites.Nodup
  anchored : ∃ inner site label,
    (d.span, d.message) :: d.secondary.map (·, "required from here") = inner ++ [(site, label)] ∧
      site.PlacedIn doc.text.toList doc.name ∧ (∀ other ∈ inner, other.1.unit ≠ doc.name) ∧
      n.range = .of site ∧
      n.related = inner.map fun other => ⟨doc.uriOf fs other.1.unit, .of other.1, other.2⟩
  forward : n.range.Forward
  onLine : n.range.start.line < (Text.split '\n' doc.text.toList).length

theorem notice_shows {d : Diagnostic} {inner : List Span} {site : Span}
    (hsites : d.sites = inner ++ [site]) (hsite : site.PlacedIn doc.text.toList doc.name)
    (hinner : ∀ s ∈ inner, s.unit ≠ doc.name) (hnodup : inner.Nodup) :
    Shows fs doc d (notice doc fs d) := by
  obtain ⟨others, last, hlabelled, rfl, hlast⟩ :=
    List.map_eq_append_iff.mp ((map_fst_labelledSites d).trans hsites)
  obtain ⟨⟨site, label⟩, rfl, rfl⟩ := List.map_eq_singleton_iff.mp hlast
  have hothers : ∀ other ∈ others, other.1.unit ≠ doc.name :=
    fun other hmem => hinner other.1 (List.mem_map_of_mem hmem)
  have hanchor : anchor doc.name d = (site, others) := by
    rw [anchor, hlabelled, extract?_concat]
    · exact fun other hmem => decide_eq_false (hothers other hmem)
    · exact decide_eq_true hsite.unit
  have hnotice : notice doc fs d =
      { range := .of site
        message := d.message
        severity := d.severity
        related := others.map fun other => ⟨doc.uriOf fs other.1.unit, .of other.1, other.2⟩ } := by
    rw [notice, hanchor]
  obtain ⟨hforward, hline⟩ := Range.of_trueIn hsite.true
  rw [hnotice]
  refine ⟨rfl, rfl, ?_, ⟨others, site, label, hlabelled, hsite, hothers, rfl, rfl⟩, hforward, hline⟩
  rw [hsites, ← List.concat_eq_append]
  refine hnodup.concat fun hmem => ?_
  obtain ⟨other, hother, hsame⟩ := List.mem_map.mp hmem
  exact hothers other hother (hsame ▸ hsite.unit)

/-! ## Publications -/

theorem publication_eq {s : String} (hpath : doc.path = some (.ofString s)) {config : Config}
    (hload : Config.load fs none (Path.ofString s).parent = .ok config) {comp : Compilation}
    {s' : Compiler.State}
    (hrun : (({ config } : Compiler).compileSource fs doc.text doc.name none doc.path).run {} =
      .ok comp s') :
    publication fs doc = .ok ⟨doc.uri, comp.diagnostics.map (notice doc fs)⟩ := by
  have hroot : (doc.path.map Path.parent).getD (.ofString ".") = (Path.ofString s).parent := by
    rw [hpath]
    rfl
  unfold publication
  simp only [hroot, hload, hrun]

/-- For each diagnostic of a document a notice is published that shows it, in the same order. -/
theorem publication_shows (hhere : ".." ∉ fs.here) (hfs : fs.WellNamed) {s : String}
    (hpath : doc.path = some (.ofString s)) {config : Config}
    (hload : Config.load fs none (Path.ofString s).parent = .ok config) {comp : Compilation}
    {s' : Compiler.State}
    (hrun : (({ config } : Compiler).compileSource fs doc.text doc.name none doc.path).run {} =
      .ok comp s') :
    ∃ p, publication fs doc = .ok p ∧ p.uri = doc.uri ∧
      List.Forall₂ (Shows fs doc) comp.diagnostics p.notices := by
  refine ⟨_, publication_eq hpath hload hrun, rfl, ?_⟩
  rw [List.forall₂_map_right_iff, List.forall₂_same]
  intro d hd
  have hname : doc.name = (Path.ofString s).toString := by
    rw [Document.name, hpath]
  have hchecked : ∀ delimiters, config.delimiters none = .ok delimiters →
      delimiters.check = .ok () :=
    fun delimiters => Config.delimiters_checked ((Config.load_comes fs none _).of_ok hload)
  rw [hpath] at hrun
  obtain ⟨inner, site, hinner, hnodup⟩ :=
    Compiler.compileSource_comesOut hhere hfs hchecked hrun d hd
  refine notice_shows hinner.sites hinner.placed (fun other hother hsame => ?_) hnodup
  -- a unit of that name would be the document, which was on the stack
  refine hinner.elsewhere other hother (List.mem_singleton.mpr ?_)
  rw [hsame, hname, Path.ofString_toString (Path.isPart_ofString s)]

/-- A document whose second line includes a part, which includes a broken file: the notice stands at
the tag in the document, and the broken file and the tag in the part are related places. -/
theorem shows_at_include_tag :
    let fs : FileSystem :=
      ⟨["site"], [(["site"], .directory),
        (["site", "part"], .file "\x7b% include 'broken' %\x7d".toUTF8.toList),
        (["site", "broken"], .file "\x7b% if %\x7d\x7b% endif %\x7d".toUTF8.toList)]⟩
    let doc : Document := ⟨"file:///site/page", "text\n\x7b% include 'part' %\x7d",
      some (.ofString "/site/page")⟩
    ".." ∉ fs.here ∧ fs.WellNamed ∧ ∃ config comp s',
      Config.load fs none (Path.ofString "/site/page").parent = .ok config ∧
        (({ config } : Compiler).compileSource fs doc.text doc.name none doc.path).run {} =
          .ok comp s' ∧
        (comp.diagnostics.map (notice doc fs)).map (fun n => (n.range, n.related.map (·.uri))) =
          [(⟨⟨1, 0⟩, ⟨1, 20⟩⟩, ["file:///site/broken", "file:///site/part"])] ∧
        ∃ p, publication fs doc = .ok p ∧ p.uri = doc.uri ∧
          List.Forall₂ (Shows fs doc) comp.diagnostics p.notices := by
  intro fs doc
  have hhere : ".." ∉ fs.here := by decide
  have hfs : fs.WellNamed := by decide
  have hload : Config.load fs none (Path.ofString "/site/page").parent =
      .ok (.initial (Path.ofString "/site/page").parent) := by
    rfl
  obtain ⟨comp, s', hrun, hnotices⟩ := Ends.exists_of_run_map
    (p := ({ config := .initial (Path.ofString "/site/page").parent } : Compiler).compileSource fs
      doc.text doc.name none doc.path) (s := {})
    (f := fun comp : Compilation =>
      (comp.diagnostics.map (notice doc fs)).map fun n => (n.range, n.related.map (·.uri)))
    (b := [(⟨⟨1, 0⟩, ⟨1, 20⟩⟩, ["file:///site/broken", "file:///site/part"])])
    (by decide +kernel)
  exact ⟨hhere, hfs, _, comp, s', hload, hrun, hnotices,
    publication_shows hhere hfs rfl hload hrun⟩

end Editor

end TemplateCompiler
