import TemplateCompiler.Proofs.Agreement

/-!
# The ways to a diagnostic

Every diagnostic stands in some unit, and its secondary spans are the include tags on the way there
from the compiled unit, one for each file on the way and innermost first. No file is on the way
twice. All that went wrong in a file is told at each tag that leads there, in the same order, unless
the depth limit is met on the way from one of them.
-/

namespace TemplateCompiler

/-- A parsed source is under its own name already. -/
theorem Parsed.inUnit_of_parse {setting : Parser.Setting} {delimiters : Delimiters}
    {source : String} {parsed : Parsed} (h : parse setting delimiters source = .ok parsed) :
    parsed.inUnit setting.unit = parsed := by
  have hrenamed := parse_inUnit setting setting.unit delimiters source
  rw [h] at hrenamed
  exact (Except.ok.inj hrenamed).symm

namespace Compiler

open Relation (ReflTransGen TransGen)

variable {c : Compiler} {fs : FileSystem} {m₀ m : Memory} {base stack above : List Path}
  {unit next : SourceUnit} {place : Path} {o o' : Outcome}

variable (hhere : ".." ∉ fs.here)

/-! ## Spans of a unit -/

section

variable {delimiters : Delimiters} {parsed : Parsed}

theorem Reads.inUnit_eq (h : Reads c unit delimiters parsed) : parsed.inUnit unit.name = parsed :=
  Parsed.inUnit_of_parse h.parses

theorem Reads.unit_of_complaint (h : Reads c unit delimiters parsed) {d : Diagnostic}
    (hd : d ∈ parsed.diagnostics delimiters) : d.span.unit = unit.name := by
  rw [← h.inUnit_eq, Parsed.diagnostics_inUnit] at hd
  obtain ⟨d', _, rfl⟩ := List.mem_map.mp hd
  rfl

theorem Reads.unit_of_problem (h : Reads c unit delimiters parsed) {d : Diagnostic}
    (hd : d ∈ (Included.ofUnit unit parsed.template).diagnostics) : d.span.unit = unit.name := by
  rw [← h.inUnit_eq, Parsed.inUnit, Included.ofUnit, bindAll_problems_inUnit, List.map_map] at hd
  obtain ⟨problem, _, rfl⟩ := List.mem_map.mp hd
  rfl

theorem Reads.unit_of_tag (h : Reads c unit delimiters parsed) {tag : String × Span}
    (htag : tag ∈ includeTags parsed.template) : tag.2.unit = unit.name := by
  rw [← h.inUnit_eq, Parsed.inUnit, includeTags_inUnit] at htag
  obtain ⟨tag', _, rfl⟩ := List.mem_map.mp htag
  rfl

end

/-! ## Trails -/

/-- An include tag that stands in a unit, and the file that it leads to. -/
structure TagTo (c : Compiler) (fs : FileSystem) (unit : SourceUnit) (tag : String × Span)
    (place : Path) : Prop where
  stands : ∃ delimiters parsed, Reads c unit delimiters parsed ∧ parsed.complaints = [] ∧
    tag ∈ includeTags parsed.template
  named : tag.2.unit = unit.name
  leads : ∃ found, c.config.findTemplate fs tag.1 unit.path = .ok (some found) ∧
    fs.resolve found = place

/-- The way from a unit to a span: the files on it, and the include tags that lead to them, both
innermost first. -/
inductive Trail (c : Compiler) (fs : FileSystem) :
    SourceUnit → List Path → List Span → Span → Prop
  | here {unit span} (h : span.unit = unit.name) : Trail c fs unit [] [] span
  | through {unit next path site place places sites span}
      (htag : TagTo c fs unit (path, site) place) (hnext : FileUnit fs next place)
      (h : Trail c fs next places sites span) :
      Trail c fs unit (places ++ [place]) (sites ++ [site]) span

/-! ## Explanations -/

/-- What an include tag adds to the diagnostics of its unit: a problem of its own, or all that went
wrong in the file that it leads to. -/
inductive Part where
  | refused (problem : IncludeProblem)
  | dependency (unit : SourceUnit) (diagnostics : List Diagnostic)

def Part.diagnostics (site : Span) : Part → List Diagnostic
  | .refused problem => [⟨problem.message, site, [], .error⟩]
  | .dependency _ diagnostics => diagnostics.map (·.through site)

/-- Why a tag is refused in a unit that is reached below some files, where some more were on the
stack from the start. -/
inductive Refusal (c : Compiler) (fs : FileSystem) (base above : List Path) (unit : SourceUnit) :
    String × Span → IncludeProblem → Prop
  | missing {path span} (hfind : c.config.findTemplate fs path unit.path = .ok none) :
      Refusal c fs base above unit (path, span) (.notFound path c.config.describeDirs)
  | circular {path span found} (hfind : c.config.findTemplate fs path unit.path = .ok (some found))
      (hmet : fs.resolve found ∈ base ∨ fs.resolve found ∈ above) :
      Refusal c fs base above unit (path, span) (.circular path)
  | tooDeep {path span found} (hfind : c.config.findTemplate fs path unit.path = .ok (some found))
      (hdepth : c.maxIncludeDepth ≤ base.length + above.length) :
      Refusal c fs base above unit (path, span) (.tooDeep c.maxIncludeDepth)
  | unreadable {path span found file fault}
      (hfind : c.config.findTemplate fs path unit.path = .ok (some found))
      (h : Unreadable c fs found file fault) :
      Refusal c fs base above unit (path, span) (.unreadable path (fault.message file))

/-- The diagnostics of a unit that is reached below some files are explained: they are the
complaints about its source, or the problems of its calls and a part for each include tag. -/
inductive Explained (c : Compiler) (fs : FileSystem) (base : List Path) :
    List Path → SourceUnit → List Diagnostic → Prop
  | complaints {above unit delimiters parsed} (hreads : Reads c unit delimiters parsed)
      (hne : parsed.complaints ≠ []) :
      Explained c fs base above unit (parsed.diagnostics delimiters)
  | parts {above unit delimiters parsed} {parts : List ((String × Span) × Part)}
      (hreads : Reads c unit delimiters parsed) (hnil : parsed.complaints = [])
      (htags : parts.map Prod.fst = includeTags parsed.template)
      (hrefused : ∀ part ∈ parts, ∀ problem, part.2 = .refused problem →
        Refusal c fs base above unit part.1 problem)
      (hleads : ∀ part ∈ parts, ∀ next diagnostics, part.2 = .dependency next diagnostics →
        ∃ place, FileUnit fs next place ∧ TagTo c fs unit part.1 place ∧ place ∉ above)
      (hnext : ∀ part ∈ parts, ∀ next diagnostics place, part.2 = .dependency next diagnostics →
        FileUnit fs next place → Explained c fs base (place :: above) next diagnostics)
      -- Each tag that leads to the same file adds the same.
      (hsame : ∀ part ∈ parts, ∀ part' ∈ parts, ∀ next diagnostics place,
        part.2 = .dependency next diagnostics → FileUnit fs next place →
        TagTo c fs unit part'.1 place → ¬ ReportsLimit c (part.2.diagnostics part.1.2) →
        ¬ ReportsLimit c (part'.2.diagnostics part'.1.2) →
          ∃ next' diagnostics', part'.2 = .dependency next' diagnostics' ∧
            FileUnit fs next' place ∧ nameless diagnostics' = nameless diagnostics) :
      Explained c fs base above unit ((Included.ofUnit unit parsed.template).diagnostics ++
        parts.flatMap fun part => part.2.diagnostics part.1.2)

/-- Each explained diagnostic has a trail, on which its secondary spans are the sites. -/
theorem Explained.trail {diagnostics : List Diagnostic}
    (h : Explained c fs base above unit diagnostics) (habove : above.Nodup) {d : Diagnostic}
    (hd : d ∈ diagnostics) :
    ∃ places, Trail c fs unit places d.secondary d.span ∧ (places ++ above).Nodup := by
  induction h generalizing d with
  | complaints hreads _ =>
      have hunit := hreads.unit_of_complaint hd
      obtain ⟨complaint, _, rfl⟩ := List.mem_map.mp hd
      exact ⟨[], .here hunit, habove⟩
  | parts hreads _ htags _ hleads _ _ ih =>
      rcases List.mem_append.mp hd with hproblem | hpart
      · have hunit := hreads.unit_of_problem hproblem
        obtain ⟨problem, _, rfl⟩ := List.mem_map.mp hproblem
        exact ⟨[], .here hunit, habove⟩
      · obtain ⟨⟨tag, part⟩, hmem, hd⟩ := List.mem_flatMap.mp hpart
        cases part with
        | refused problem =>
            obtain rfl := List.mem_singleton.mp hd
            exact ⟨[], .here (hreads.unit_of_tag (htags ▸ List.mem_map_of_mem hmem)), habove⟩
        | dependency next diagnostics =>
            obtain ⟨inner, hinner, rfl⟩ := List.mem_map.mp hd
            obtain ⟨place, hnext, htag, hnew⟩ := hleads _ hmem next diagnostics rfl
            have hcons : (place :: _).Nodup := List.nodup_cons.mpr ⟨hnew, habove⟩
            obtain ⟨places, htrail, hnodup⟩ :=
              ih _ hmem next diagnostics place rfl hnext hcons hinner
            refine ⟨places ++ [place], .through htag hnext htrail, ?_⟩
            rwa [List.append_assoc, List.singleton_append]

/-! ## Explanations from accounts -/

/-- What an account says of a tag, without the stack and without the program. -/
def Share.part : Share → Part
  | .refused problem => .refused problem
  | .reached _ o => .dependency o.compilation.unit o.compilation.diagnostics

theorem Share.diagnostics_part {share : Share} {span : Span}
    (h : ∀ from' o, share = .reached from' o → Built c fs m₀ m from' o) :
    share.part.diagnostics span = share.diagnostics span := by
  cases share with
  | refused problem => rfl
  | reached from' o => exact ((h from' o rfl).diagnostics_reached from' span).symm

theorem Itemized.tagTo {comp : Compilation} {delimiters : Delimiters} {parsed : Parsed}
    {entries : List Entry} (h : Itemized c fs m₀ m stack comp delimiters parsed entries)
    {entry : Entry} (hentry : entry ∈ entries) {found : Path}
    (hfind : c.config.findTemplate fs entry.1.1 comp.unit.path = .ok (some found)) :
    TagTo c fs comp.unit entry.1 (fs.resolve found) := by
  have htag : entry.1 ∈ includeTags parsed.template := h.tags ▸ List.mem_map_of_mem hentry
  exact ⟨⟨delimiters, parsed, h.reads, h.flawless, htag⟩, h.reads.unit_of_tag htag, found, hfind,
    rfl⟩

/-- Where a unit is reached, below some files that lead to whatever it includes. If its outcome
depends on the stack, these files are on the stack of its includes, behind what was there from the
start. -/
structure Below (c : Compiler) (fs : FileSystem) (base stack above : List Path) (o : Outcome) :
    Prop where
  way : ∀ tag next, TagTo c fs o.compilation.unit tag next → ∀ earlier ∈ above,
    TransGen (Live c fs) earlier next
  level : o.contextual = true → stack ++ o.compilation.unit.path.toList = base ++ above.reverse

theorem Below.mem_stack (h : Below c fs base stack above o) (hcontextual : o.contextual = true)
    {earlier : Path} :
    earlier ∈ stack ++ o.compilation.unit.path.toList ↔ earlier ∈ base ∨ earlier ∈ above := by
  rw [h.level hcontextual, List.mem_append, List.mem_reverse]

section

include hhere

theorem TagTo.live {tag : String × Span} {after : Path}
    (hunit : FileUnit fs unit place) (hread : ¬ Blocked c fs place)
    (h : TagTo c fs unit tag after) : Live c fs place after := by
  obtain ⟨delimiters, parsed, hreads, hnil, htag⟩ := h.stands
  obtain ⟨found, hfind, rfl⟩ := h.leads
  refine ⟨hread, ⟨_, _, hunit.readsAt hhere hreads, ?_⟩, hunit.includes hhere hreads htag hfind⟩
  rw [Parsed.inUnit, hnil, List.map_nil]

theorem Below.notMem {after : Path} {tag : String × Span} {comp : Compilation} {flag : Bool}
    {from' : List Path} (h : Below c fs base stack above ⟨comp, flag⟩)
    (htag : TagTo c fs comp.unit tag after) (hout : after ∉ stack ++ comp.unit.path.toList)
    (hbuilt : Built c fs m₀ m from' o) (hunit : FileUnit fs o.compilation.unit after)
    (hflag : o.contextual = true → flag = true) : after ∉ above := by
  intro hmem
  cases hcontextual : o.contextual with
  | true => exact hout ((h.mem_stack (hflag hcontextual)).mpr (.inr hmem))
  | false => exact hbuilt.acyclic hhere hcontextual hunit (h.way tag after htag after hmem)

theorem Below.step {after : Path} {tag : String × Span} {comp : Compilation} {flag : Bool}
    {from' : List Path} (h : Below c fs base stack above ⟨comp, flag⟩)
    (htag : TagTo c fs comp.unit tag after)
    (ha : Arrives fs m₀ m (stack ++ comp.unit.path.toList) after from' o)
    (hbuilt : Built c fs m₀ m from' o) (hflag : o.contextual = true → flag = true) :
    Below c fs base from' (after :: above) o where
  way tag' next htag' earlier hearlier := by
    have hlive := htag'.live hhere ha.unit (hbuilt.not_blocked hhere ha.unit)
    rcases List.mem_cons.mp hearlier with rfl | hmem
    · exact .single hlive
    · exact (h.way tag after htag earlier hmem).tail hlive
  level hcontextual := by
    have hlevel : stack ++ comp.unit.path.toList = base ++ above.reverse :=
      h.level (hflag hcontextual)
    rw [ha.here hcontextual, ha.unit.path, hlevel, List.append_assoc, List.reverse_cons]
    rfl

/-- A tag leads to a readable file: it reaches the file, unless the stack is in the way. -/
theorem Fits.reaches {tag : String × Span} {share : Share}
    (h : Fits c fs m₀ m unit stack tag share) {found : Path}
    (hfind : c.config.findTemplate fs tag.1 unit.path = .ok (some found))
    (hout : fs.resolve found ∉ stack) (hdepth : (stack.length : Int) < c.maxIncludeDepth)
    (hread : ¬ Blocked c fs (fs.resolve found)) :
    ∃ from' o, share = .reached from' o ∧ Arrives fs m₀ m stack (fs.resolve found) from' o := by
  cases h with
  | missing hfind' => cases hfind'.symm.trans hfind
  | circular hfind' hin =>
      obtain rfl := Option.some.inj (Except.ok.inj (hfind'.symm.trans hfind))
      exact absurd hin hout
  | tooDeep _ _ hdeep => exact absurd hdeep (Int.not_le.mpr hdepth)
  | unreadable hfind' _ _ hun =>
      obtain rfl := Option.some.inj (Except.ok.inj (hfind'.symm.trans hfind))
      exact absurd (hun.blocked hhere (isFile_of_findTemplate hfind)) hread
  | reached hfind' _ _ ha =>
      obtain rfl := Option.some.inj (Except.ok.inj (hfind'.symm.trans hfind))
      exact ⟨_, _, rfl, ha⟩

end

theorem Fits.refusal {tag : String × Span} {problem : IncludeProblem}
    (h : Fits c fs m₀ m unit stack tag (.refused problem))
    (hlevel : IncludeProblem.contextual problem = true → stack = base ++ above.reverse) :
    Refusal c fs base above unit tag problem := by
  cases h with
  | missing hfind => exact .missing hfind
  | circular hfind hin =>
      rw [hlevel rfl, List.mem_append, List.mem_reverse] at hin
      exact .circular hfind hin
  | tooDeep hfind _ hdepth =>
      rw [hlevel rfl, List.length_append, List.length_reverse] at hdepth
      exact .tooDeep hfind (by exact_mod_cast hdepth)
  | unreadable hfind _ _ hun => exact .unreadable hfind hun

theorem Share.of_part {share : Share} {diagnostics : List Diagnostic}
    (h : share.part = .dependency unit diagnostics) :
    ∃ from' o, share = .reached from' o ∧ o.compilation.unit = unit ∧
      o.compilation.diagnostics = diagnostics := by
  cases share with
  | refused problem => cases h
  | reached from' o =>
      obtain ⟨hunit, hdiagnostics⟩ := Part.dependency.inj h
      exact ⟨from', o, rfl, hunit, hdiagnostics⟩

theorem FileUnit.place_eq {after : Path} (h : FileUnit fs unit place)
    (h' : FileUnit fs unit after) : place = after :=
  Option.some.inj (h.path.symm.trans h'.path)

theorem ReportsLimit.through {diagnostics : List Diagnostic} (h : ReportsLimit c diagnostics)
    (site : Span) : ReportsLimit c (diagnostics.map (·.through site)) := by
  obtain ⟨d, hd, hmessage⟩ := h
  exact ⟨d.through site, List.mem_map_of_mem hd, hmessage⟩

section

variable {comp : Compilation} {delimiters : Delimiters} {parsed : Parsed} {entries : List Entry}

theorem Itemized.arrives (h : Itemized c fs m₀ m stack comp delimiters parsed entries)
    {entry : Entry} (hentry : entry ∈ entries) {from' : List Path}
    (hshare : entry.2 = .reached from' o) :
    ∃ after, TagTo c fs comp.unit entry.1 after ∧ after ∉ stack ++ comp.unit.path.toList ∧
      ((stack ++ comp.unit.path.toList).length : Int) < c.maxIncludeDepth ∧
      Arrives fs m₀ m (stack ++ comp.unit.path.toList) after from' o := by
  obtain ⟨found, hfind, hout, hdepth, ha⟩ := (h.fits entry hentry).arrives hshare
  exact ⟨fs.resolve found, h.tagTo hentry hfind, hout, hdepth, ha⟩

include hhere

/-- The tags of a unit that lead to the same file reach the same. -/
theorem Itemized.same_share (hm : Extends c fs base m₀ m)
    (h : Itemized c fs m₀ m stack comp delimiters parsed entries)
    (hshares : ∀ entry ∈ entries, ∀ from' o, entry.2 = .reached from' o → Built c fs m₀ m from' o)
    (hbelow : Below c fs base stack above ⟨comp, entries.any (·.2.contextual)⟩)
    {entry entry' : Entry} (hentry : entry ∈ entries) (hentry' : entry' ∈ entries)
    {from' : List Path} (hshare : entry.2 = .reached from' o)
    (hunit : FileUnit fs o.compilation.unit place) (htag' : TagTo c fs comp.unit entry'.1 place)
    (hlimit : ¬ ReportsLimit c (entry.2.diagnostics entry.1.2))
    (hlimit' : ¬ ReportsLimit c (entry'.2.diagnostics entry'.1.2)) :
    ∃ from'' o', entry'.2 = .reached from'' o' ∧ FileUnit fs o'.compilation.unit place ∧
      nameless o'.compilation.diagnostics = nameless o.compilation.diagnostics := by
  obtain ⟨after, htag, hout, hdepth, ha⟩ := h.arrives hentry hshare
  obtain rfl := hunit.place_eq ha.unit
  have hbuilt := hshares entry hentry from' o hshare
  have hread := hbuilt.not_blocked hhere hunit
  obtain ⟨found, hfind, rfl⟩ := htag'.leads
  obtain ⟨from'', o', hshare', ha'⟩ := (h.fits entry' hentry').reaches hhere hfind hout hdepth hread
  have hbuilt' := hshares entry' hentry' from'' o' hshare'
  rw [hshare, hbuilt.diagnostics_reached] at hlimit
  rw [hshare', hbuilt'.diagnostics_reached] at hlimit'
  have hahead : o.contextual = true ∨ o'.contextual = true →
      Ahead c fs base (stack ++ comp.unit.path.toList) (fs.resolve found) o ∧
        Ahead c fs base (stack ++ comp.unit.path.toList) (fs.resolve found) o' := by
    intro hcontextual
    have hany : entries.any (·.2.contextual) = true := by
      rcases hcontextual with hleft | hright
      · exact List.any_eq_true.mpr ⟨entry, hentry, by rw [hshare]; exact hleft⟩
      · exact List.any_eq_true.mpr ⟨entry', hentry', by rw [hshare']; exact hright⟩
    have hway : ∀ earlier ∈ stack ++ comp.unit.path.toList,
        earlier ∈ base ∨ ReflTransGen (Live c fs) earlier (fs.resolve found) := fun earlier hmem =>
      ((hbelow.mem_stack hany).mp hmem).imp_right fun habove =>
        (hbelow.way _ _ htag earlier habove).to_reflTransGen
    exact ⟨⟨hway, .inl fun hreports => hlimit (hreports.through _)⟩,
      ⟨hway, .inl fun hreports => hlimit' (hreports.through _)⟩⟩
  have hcomparable := ha.comparable hhere hm hm hbuilt hbuilt' ha' fun hcontextual =>
    ⟨rfl, hahead hcontextual⟩
  exact ⟨from'', o', hshare', ha'.unit,
    (hbuilt.agree hhere hm hm hbuilt' hunit ha'.unit hcomparable).symm⟩

/-- A unit that has an account has an explanation. -/
theorem Built.explained (hm : Extends c fs base m₀ m)
    (h : Built c fs m₀ m stack o) (hbelow : Below c fs base stack above o) :
    ∃ diagnostics, Explained c fs base above o.compilation.unit diagnostics ∧
      o.compilation.diagnostics = leadBack o.compilation.unit diagnostics := by
  induction h generalizing above with
  | broken hreads hne _ hdiagnostics => exact ⟨_, .complaints hreads hne, hdiagnostics⟩
  | @clean stack comp delimiters parsed entries h hshares ih =>
      have hany : ∀ entry ∈ entries, ∀ from' o, entry.2 = .reached from' o → o.contextual = true →
          entries.any (·.2.contextual) = true := by
        intro entry hentry from' o hshare hflag
        exact List.any_eq_true.mpr ⟨entry, hentry, by rw [hshare]; exact hflag⟩
      have hpart : ∀ entry ∈ entries,
          entry.2.part.diagnostics entry.1.2 = entry.2.diagnostics entry.1.2 :=
        fun entry hentry => Share.diagnostics_part (hshares entry hentry)
      refine ⟨(Included.ofUnit comp.unit parsed.template).diagnostics ++
        (entries.map fun entry => (entry.1, entry.2.part)).flatMap fun part =>
          part.2.diagnostics part.1.2, .parts h.reads h.flawless ?_ ?_ ?_ ?_ ?_, ?_⟩
      · rw [List.map_map, ← h.tags]
        rfl
      · intro part hmem problem hrefused
        obtain ⟨⟨tag, share⟩, hentry, rfl⟩ := List.mem_map.mp hmem
        cases share with
        | reached from' o => cases hrefused
        | refused problem' =>
            obtain rfl := Part.refused.inj hrefused
            refine (h.fits _ hentry).refusal fun hcontextual => hbelow.level ?_
            exact List.any_eq_true.mpr ⟨_, hentry, hcontextual⟩
      · intro part hmem next diagnostics hdependency
        obtain ⟨entry, hentry, rfl⟩ := List.mem_map.mp hmem
        obtain ⟨from', o, hshare, rfl, -⟩ := Share.of_part hdependency
        obtain ⟨after, htag, hout, -, ha⟩ := h.arrives hentry hshare
        have hbuilt := hshares entry hentry from' o hshare
        exact ⟨after, ha.unit, htag,
          hbelow.notMem hhere htag hout hbuilt ha.unit (hany entry hentry from' o hshare)⟩
      · intro part hmem next diagnostics place hdependency hnext
        obtain ⟨entry, hentry, rfl⟩ := List.mem_map.mp hmem
        obtain ⟨from', o, hshare, rfl, rfl⟩ := Share.of_part hdependency
        obtain ⟨after, htag, hout, -, ha⟩ := h.arrives hentry hshare
        obtain rfl := hnext.place_eq ha.unit
        have hbuilt := hshares entry hentry from' o hshare
        obtain ⟨diagnostics, hexplained, hdiagnostics⟩ := ih entry hentry from' o hshare
          (hbelow.step hhere htag ha hbuilt (hany entry hentry from' o hshare))
        rwa [hdiagnostics, hnext.leadBack_eq]
      · intro part hmem part' hmem' next diagnostics place hdependency hnext htag' hlimit hlimit'
        obtain ⟨entry, hentry, rfl⟩ := List.mem_map.mp hmem
        obtain ⟨entry', hentry', rfl⟩ := List.mem_map.mp hmem'
        obtain ⟨from', o, hshare, rfl, rfl⟩ := Share.of_part hdependency
        dsimp only at hlimit hlimit' htag' ⊢
        rw [hpart entry hentry] at hlimit
        rw [hpart entry' hentry'] at hlimit'
        obtain ⟨from'', o', hshare', hunit', hsame⟩ := h.same_share hhere hm hshares hbelow hentry
          hentry' hshare hnext htag' hlimit hlimit'
        refine ⟨o'.compilation.unit, o'.compilation.diagnostics, ?_, hunit', hsame⟩
        rw [hshare']
        rfl
      · dsimp only
        rw [h.ends.diagnostics, Included.diagnostics_foldl, List.flatMap_map,
          List.flatMap_congr hpart]

end

/-! ## Requests -/

/-- The unit that a request is about. -/
def Request.Asks (fs : FileSystem) : Request → SourceUnit → Prop
  | .file p, unit => FileUnit fs unit (fs.resolve p)
  | .source text name origin path, unit => unit = ⟨name, text, path.map fs.resolve, origin⟩

/-- The file that a request starts from. An inline source is none, also if it has a path. -/
def Request.places (fs : FileSystem) : Request → List Path
  | .file p => [fs.resolve p]
  | .source _ _ _ _ => []

/-- What is on the stack of a request from the start without being compiled: the path of an inline
source. -/
def Request.start (fs : FileSystem) : Request → List Path
  | .file _ => []
  | .source _ _ _ path => (path.map fs.resolve).toList

/-- What is known of all diagnostics of a compilation. -/
structure Traced (c : Compiler) (fs : FileSystem) (r : Request) (comp : Compilation) : Prop where
  asked : r.Asks fs comp.unit
  /-- The origin of the unit is the last secondary span, and the others are the way there. -/
  trails : ∀ d ∈ comp.diagnostics, ∃ places sites, Trail c fs comp.unit places sites d.span ∧
    (places ++ r.places fs).Nodup ∧ d.secondary = sites ++ comp.unit.origin.toList
  explained : ∃ diagnostics, Explained c fs (r.start fs) (r.places fs) comp.unit diagnostics ∧
    comp.diagnostics = leadBack comp.unit diagnostics

theorem Traced.of_explained {r : Request} {comp : Compilation} (hasked : r.Asks fs comp.unit)
    (h : ∃ diagnostics, Explained c fs (r.start fs) (r.places fs) comp.unit diagnostics ∧
      comp.diagnostics = leadBack comp.unit diagnostics) : Traced c fs r comp where
  asked := hasked
  explained := h
  trails d hd := by
    obtain ⟨diagnostics, hexplained, heq⟩ := h
    have hplaces : (r.places fs).Nodup := by
      cases r with
      | file p => exact List.nodup_singleton _
      | source => exact List.nodup_nil
    rw [heq] at hd
    obtain ⟨inner, hinner, hspan, hsecondary⟩ := mem_leadBack hd
    obtain ⟨places, htrail, hnodup⟩ := hexplained.trail hplaces hinner
    exact ⟨places, inner.secondary, hspan ▸ htrail, hnodup, hsecondary⟩

/-- Whatever was asked before, every diagnostic is traced to where it stands. -/
theorem requests_traced (c : Compiler) (fs : FileSystem) (hhere : ".." ∉ fs.here)
    (history : List Request) (r : Request) (comp : Compilation) (s' : State)
    (hrun : r.perform c fs (State.after c fs history) = .ok comp s') : Traced c fs r comp := by
  have hold := State.accounted_after c fs history
  cases r with
  | file p =>
      obtain ⟨hextends, o, from', rfl, ha, hbuilt⟩ :=
        (compileFile_ends p hold Memory.Kept.refl).of_ok hrun
      refine .of_explained ha.unit (hbuilt.explained hhere hextends ⟨?_, ?_⟩)
      · intro tag next htag earlier hearlier
        obtain rfl := List.mem_singleton.mp hearlier
        exact .single (htag.live hhere ha.unit (hbuilt.not_blocked hhere ha.unit))
      · intro hcontextual
        rw [ha.here hcontextual, ha.unit.path]
        rfl
  | source text name origin path =>
      obtain ⟨hextends, hunit, o, from', rfl, hhere', hbuilt⟩ :=
        (compileSource_ends text name origin path hold Memory.Kept.refl).of_ok hrun
      refine .of_explained hunit (hbuilt.explained hhere hextends ⟨fun _ _ _ => nofun, ?_⟩)
      intro hcontextual
      rw [hhere' hcontextual, hunit]
      exact (List.append_nil _).symm

/-- An inline source with two tags for a part that includes itself and a broken file, which was
asked for before. -/
theorem traced_of_repeated_part :
    let fs : FileSystem :=
      ⟨["site"], [(["site"], .directory),
        (["site", "part"],
          .file "\x7b% include 'broken' %\x7d\x7b% include 'part' %\x7d".toUTF8.toList),
        (["site", "broken"], .file "\x7b% if %\x7d".toUTF8.toList)]⟩
    let c : Compiler := ⟨.withDirs [], none, none, 16⟩
    let host : Span := ⟨.initial, .initial, "host"⟩
    let r : Request := .source "\x7b% include 'part' %\x7d\x7b% include 'part' %\x7d" "inline"
      (some host) (some (.ofString "page"))
    ".." ∉ fs.here ∧ ∃ comp s',
      r.perform c fs (State.after c fs [.file (.ofString "broken")]) = .ok comp s' ∧
        comp.diagnostics.map (·.secondary.map Span.unit) =
          [["/site/part", "inline", "host"], ["/site/part", "inline", "host"], ["inline", "host"],
            ["/site/part", "inline", "host"], ["/site/part", "inline", "host"],
            ["inline", "host"]] ∧
        Traced c fs r comp := by
  intro fs c host r
  have hhere : ".." ∉ fs.here := by decide
  obtain ⟨comp, s', hrun, hsecondary⟩ := Ends.exists_of_run_map
    (p := r.perform c fs) (s := State.after c fs [.file (.ofString "broken")])
    (f := fun comp : Compilation => comp.diagnostics.map (·.secondary.map Span.unit))
    (b := [["/site/part", "inline", "host"], ["/site/part", "inline", "host"], ["inline", "host"],
      ["/site/part", "inline", "host"], ["/site/part", "inline", "host"], ["inline", "host"]])
    (by decide +kernel)
  exact ⟨hhere, comp, s', hrun, hsecondary,
    requests_traced c fs hhere [.file (.ofString "broken")] r comp s' hrun⟩

/-- Where the limit is met, the tags that lead to one file need not add the same: behind the second
tag for `r`, the file `b` is remembered from the first. -/
example :
    let fs : FileSystem :=
      ⟨["site"], [(["site"], .directory),
        (["site", "p"], .file "\x7b% include 'r' %\x7d\x7b% include 'r' %\x7d".toUTF8.toList),
        (["site", "r"], .file "\x7b% include 'a' %\x7d\x7b% include 'b' %\x7d".toUTF8.toList),
        (["site", "a"], .file "\x7b% include 'b' %\x7d".toUTF8.toList),
        (["site", "b"], .file "\x7b% include 'c' %\x7d".toUTF8.toList),
        (["site", "c"], .file "end".toUTF8.toList)]⟩
    let c : Compiler := ⟨.withDirs [], none, none, 4⟩
    ((c.compileFile fs (.ofString "p")).run' {}).map (·.diagnostics.length) = some 1 := by
  decide +kernel

end Compiler

end TemplateCompiler
