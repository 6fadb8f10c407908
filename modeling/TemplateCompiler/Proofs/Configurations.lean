import Mathlib.Data.List.Forall2
import TemplateCompiler.Config
import TemplateCompiler.Proofs.Lookup
import TemplateCompiler.Proofs.ScanSteps

/-!
# Configurations

What can come of a table, whatever it holds at whatever key. Reading one goes through its parts in a
fixed order, and every part either comes to a configuration of which more is known, or ends the work
with a fault. `Comes` says both at once, with one rule for each way in which the reading is put
together, so that the proof about each function follows its definition.

The delimiter sets are added one by one. What is kept all the way is that each passes the check and
that no two have the same name (`Config.Collects`), which the scanner and `Config.delimiters` rely
on.

Two faults are no mistakes that the author of the table is told of. Extensions that are a single
value, such as a number, cannot be gone through; and a whole number with too many digits has no text
(`Config.Fails`).
-/

namespace TemplateCompiler

open Toml (Value)

/-! ## Outcomes -/

section

variable {ε α β : Type} {Q : α → Prop} {R : β → Prop} {E : ε → Prop}

/-- The outcome is a result of which `Q` holds, or a fault of which `E` does. -/
def Comes (x : Except ε α) (Q : α → Prop) (E : ε → Prop) : Prop :=
  match x with
  | .ok a => Q a
  | .error e => E e

namespace Comes

theorem ok {a : α} (h : Q a) : Comes (.ok a : Except ε α) Q E := h

theorem error {e : ε} (h : E e) : Comes (.error e : Except ε α) Q E := h

/-- What is known of an outcome is known of the result that it is. -/
theorem self {x : Except ε α} (h : Comes x Q E) : Comes x (fun a => x = .ok a ∧ Q a) E := by
  cases x with
  | ok a => exact ⟨rfl, h⟩
  | error e => exact h

theorem any (x : Except ε α) : Comes x (fun _ => True) fun _ => True := by
  cases x <;> trivial

theorem of_ok {x : Except ε α} (h : Comes x Q E) {a : α} (hx : x = .ok a) : Q a := by
  subst hx
  exact h

theorem imp {x : Except ε α} {Q' : α → Prop} (h : Comes x Q E) (hQ : ∀ a, Q a → Q' a) :
    Comes x Q' E := by
  cases x with
  | ok a => exact hQ a h
  | error e => exact h

theorem imp_fault {x : Except ε α} {E' : ε → Prop} (h : Comes x Q E) (hE : ∀ e, E e → E' e) :
    Comes x Q E' := by
  cases x with
  | ok a => exact h
  | error e => exact hE e h

/-- Only the faults of an outcome. -/
theorem faults {x : Except ε α} (h : Comes x Q E) : Comes x (fun _ => True) E :=
  h.imp fun _ _ => trivial

theorem bind {x : Except ε α} {f : α → Except ε β} (hx : Comes x Q E)
    (hf : ∀ a, Q a → Comes (f a) R E) : Comes (x >>= f) R E := by
  cases x with
  | ok a => exact hf a hx
  | error e => exact hx

theorem map {x : Except ε α} {f : α → β} (hx : Comes x Q E) (hf : ∀ a, Q a → R (f a)) :
    Comes (do return f (← x)) R E :=
  hx.bind fun a ha => ok (hf a ha)

/-- Of each item something comes. -/
theorem mapM {f : α → Except ε β} {P : α → β → Prop} {xs : List α}
    (h : ∀ x ∈ xs, Comes (f x) (P x) E) :
    Comes (xs.mapM f) (fun ys => List.Forall₂ P xs ys) E := by
  induction xs with
  | nil => exact .nil
  | cons x xs ih =>
      obtain ⟨hx, hxs⟩ := List.forall_mem_cons.mp h
      rw [List.mapM_cons]
      exact hx.bind fun y hy => (ih hxs).bind fun ys hys => ok (.cons hy hys)

/-- What each item preserves is so of them all. -/
theorem foldlM {f : β → α → Except ε β} {P : List α → β → Prop} {xs : List α} {b : β}
    (hstart : P [] b)
    (hstep : ∀ done, ∀ a ∈ xs, ∀ b, P done b → Comes (f b a) (P (done ++ [a])) E) :
    Comes (xs.foldlM f b) (P xs) E := by
  suffices hrest : ∀ (rest done : List α) (b : β), done ++ rest = xs → P done b →
      Comes (rest.foldlM f b) (P xs) E from hrest xs [] b rfl hstart
  intro rest
  induction rest with
  | nil =>
      rintro done b hxs hb
      rw [List.append_nil] at hxs
      exact hxs ▸ hb
  | cons a rest ih =>
      rintro done b hxs hb
      rw [List.foldlM_cons]
      refine (hstep done a (hxs ▸ by simp) b hb).bind fun b' hb' => ?_
      exact ih (done ++ [a]) b' (by simpa using hxs) hb'

end Comes

end

/-! ## Numbers without a text -/

namespace Toml

/-- In the value stands a whole number with too many digits, be it at any depth. -/
inductive Value.HoldsLong : Value → Prop
  | integer {n : Int} (h : Numeral.digitLimit < (toString n.natAbs).length) : HoldsLong (.integer n)
  | item {items v} (hmem : v ∈ items) (h : v.HoldsLong) : HoldsLong (.array items)
  | field {fields name v} (hmem : (name, v) ∈ fields) (h : v.HoldsLong) : HoldsLong (.table fields)

mutual

theorem Value.nested_comes : ∀ v : Value, Comes v.nested (fun _ => True) fun _ => v.HoldsLong
  | .nothing | .string _ | .real _ | .notANumber | .boolean _ | .moment _ => by
      rw [nested]
      trivial
  | .integer n => by
      rw [nested, Numeral.writeInteger]
      split
      · next hlong => exact .error (.integer hlong)
      · trivial
  | .array items => by
      rw [nested]
      refine ((nestedItems_comes items).imp_fault ?_).map fun _ => id
      rintro _ ⟨v, hmem, hlong⟩
      exact .item hmem hlong
  | .table fields => by
      rw [nested]
      refine ((nestedFields_comes fields).imp_fault ?_).map fun _ => id
      rintro _ ⟨name, v, hmem, hlong⟩
      exact .field hmem hlong

theorem Value.nestedItems_comes : ∀ vs : List Value,
    Comes (nestedItems vs) (fun _ => True) fun _ => ∃ v ∈ vs, v.HoldsLong
  | [] => by
      rw [nestedItems]
      trivial
  | v :: vs => by
      rw [nestedItems]
      refine (v.nested_comes.imp_fault fun _ h => ⟨v, by simp, h⟩).bind fun _ _ => ?_
      refine ((nestedItems_comes vs).imp_fault ?_).map fun _ => id
      rintro _ ⟨u, hmem, hlong⟩
      exact ⟨u, List.mem_cons_of_mem v hmem, hlong⟩

theorem Value.nestedFields_comes : ∀ fields : List (String × Value),
    Comes (nestedFields fields) (fun _ => True) fun _ =>
      ∃ name v, (name, v) ∈ fields ∧ v.HoldsLong
  | [] => by
      rw [nestedFields]
      trivial
  | (name, v) :: rest => by
      rw [nestedFields]
      refine (v.nested_comes.imp_fault fun _ h => ⟨name, v, by simp, h⟩).bind fun _ _ => ?_
      refine ((nestedFields_comes rest).imp_fault ?_).map fun _ => id
      rintro _ ⟨name', u, hmem, hlong⟩
      exact ⟨name', u, List.mem_cons_of_mem _ hmem, hlong⟩

end

theorem Value.display_comes (v : Value) :
    Comes v.display (fun _ => True) fun _ => v.HoldsLong := by
  cases v with
  | string | moment => trivial
  | _ => exact Value.nested_comes _

/-- The items of the array under a name. What is no array has none. -/
def Value.items (name : String) (v : Value) : List Value :=
  match v.field? name with
  | some (.array items) => items
  | _ => []

/-- Does the value hold several ones, so that it can be gone through? -/
def Value.isIterable : Value → Bool
  | .array _ | .table _ | .string _ => true
  | _ => false

section

variable {name : String} {v u : Value}

theorem Value.HoldsLong.of_field? (h : v.field? name = some u) (hu : u.HoldsLong) :
    v.HoldsLong := by
  cases v with
  | table fields => exact .field (mem_of_lookup h) hu
  | _ => cases h

theorem Value.items_of_array {items : List Value} (h : v.field? name = some (.array items)) :
    v.items name = items := by
  rw [Value.items, h]

theorem Value.items_of_none (h : ∀ items, v.field? name ≠ some (.array items)) :
    v.items name = [] := by
  unfold Value.items
  split
  · next hitems => exact absurd hitems (h _)
  · rfl

theorem Value.HoldsLong.of_items (h : u ∈ v.items name) (hu : u.HoldsLong) : v.HoldsLong := by
  unfold Value.items at h
  split at h
  · next hfield => exact .of_field? hfield (.item h hu)
  · cases h

end

end Toml

/-! ## Faults -/

namespace Config

/-- Why no configuration comes of a table. -/
inductive Fails (raw : Value) : ConfigFault → Prop
  | mistake {f} (h : f.isMistake) : Fails raw f
  /-- The extensions of an escaper are a single value. -/
  | extensions {entry v} (hentry : entry ∈ raw.items "escaper")
      (hv : entry.field? "extensions" = some v) (hsingle : v.isIterable = false) :
      Fails raw (.notIterable v.typeName)
  /-- A whole number has no text. -/
  | number {fault} (h : raw.HoldsLong) : Fails raw (.badNumber fault)

section

variable {raw : Value}

theorem text_comes {v : Value} (h : v.HoldsLong → raw.HoldsLong) :
    Comes (text v) (fun s => v.display = .ok s) (Fails raw) := by
  have hdisplay := v.display_comes.self
  unfold text
  cases hv : v.display with
  | ok s => rfl
  | error fault =>
      rw [hv] at hdisplay
      exact .number (h hdisplay)

/-! ## Delimiter sets -/

/-- The name of a delimiter set is the text of the value that the entry names it by. -/
def Names (entry : Value) (name : String) : Prop :=
  ∃ v, entry.field? "name" = some v ∧ v.display = .ok name

/-- Behind the standard delimiter set there is one for each entry, in order. All pass the check, and
each has a name of its own. -/
structure Collects (entries : List Value) (c : Config) : Prop where
  names : ∃ names, c.syntaxes.map (·.1) = defaultSyntaxName :: names ∧
    List.Forall₂ Names entries names
  distinct : (c.syntaxes.map (·.1)).Nodup
  checked : ∀ named ∈ c.syntaxes, named.2.check = .ok ()
  escapers : c.escapers = defaultEscapers

theorem Collects.initial (root : Path) : Collects [] (initial root) where
  names := ⟨[], rfl, .nil⟩
  distinct := List.nodup_singleton _
  checked := List.forall_mem_singleton.mpr Delimiters.check_standard
  escapers := rfl

theorem Collects.add {entries : List Value} {entry : Value} {name : String} {d : Delimiters}
    {c : Config} (hc : Collects entries c) (hname : Names entry name)
    (hnew : ¬ (c.syntaxes.lookup name).isSome) (hd : d.check = .ok ()) :
    Collects (entries ++ [entry]) { c with syntaxes := c.syntaxes ++ [(name, d)] } := by
  obtain ⟨names, hnames, hall⟩ := hc.names
  have hkeys : (c.syntaxes ++ [(name, d)]).map (·.1) = c.syntaxes.map (·.1) ++ [name] :=
    List.map_append
  refine ⟨⟨names ++ [name], ?_, List.rel_append hall (.cons hname .nil)⟩, ?_, ?_, hc.escapers⟩
  · rw [hkeys, hnames, List.cons_append]
  · rw [lookup_isSome_iff_mem] at hnew
    rw [hkeys, ← List.concat_eq_append]
    exact hc.distinct.concat hnew
  · exact List.forall_mem_append.mpr ⟨hc.checked, List.forall_mem_singleton.mpr hd⟩

theorem readDelimiters_comes (name : String) (d : Delimiters) (fields : List (String × String)) :
    Comes (readDelimiters name d fields) (fun _ => True) (Fails raw) := by
  induction fields generalizing d with
  | nil => trivial
  | cons field fields ih =>
      rw [readDelimiters]
      split
      · exact ih _
      · exact .error (.mistake rfl)

theorem delimiterFields_comes {fields : List (String × Value)}
    (h : (Value.table fields).HoldsLong → raw.HoldsLong) :
    Comes (delimiterFields fields) (fun _ => True) (Fails raw) := by
  unfold delimiterFields
  refine (Comes.mapM (P := fun _ _ => True) fun field hmem => ?_).faults
  have htext := text_comes fun hlong => h (.field (List.mem_filter.mp hmem).1 hlong)
  exact htext.map fun _ _ => trivial

theorem addSyntax_comes {entries : List Value} {entry : Value} {c : Config}
    (h : entry.HoldsLong → raw.HoldsLong) (hc : Collects entries c) :
    Comes (addSyntax c entry) (Collects (entries ++ [entry])) (Fails raw) := by
  unfold addSyntax
  split
  · next fields =>
      split
      · exact .error (.mistake rfl)
      · next value hname =>
          refine (text_comes fun hlong => h (.of_field? hname hlong)).bind fun name hdisplay => ?_
          split
          · exact .error (.mistake rfl)
          · next hnew =>
              dsimp only
              have hfields := delimiterFields_comes h
              refine hfields.bind fun fields' _ => (readDelimiters_comes _ _ _).bind fun d _ => ?_
              split
              · exact .error (.mistake rfl)
              · next hcheck => exact .ok (hc.add ⟨value, hname, hdisplay⟩ hnew hcheck)
  · exact .error (.mistake rfl)

theorem addSyntaxes_comes {c : Config} (hc : Collects [] c) :
    Comes (addSyntaxes raw c) (Collects (raw.items "syntax")) (Fails raw) := by
  unfold addSyntaxes
  split
  · next entries hentries =>
      rw [Value.items_of_array hentries]
      exact .foldlM hc fun done entry hmem c hc =>
        addSyntax_comes (.of_field? hentries <| .item hmem ·) hc
  · next hnone =>
      rw [Value.items_of_none hnone]
      exact .ok hc

/-! ## General settings -/

variable {general : Value} {c : Config}

theorem setDirs_comes (h : general.HoldsLong → raw.HoldsLong) (root : Path) (hc : Collects [] c) :
    Comes (setDirs root general c) (Collects []) (Fails raw) := by
  unfold setDirs
  split
  · next dirs hdirs =>
      refine (Comes.mapM (P := fun _ _ => True) fun dir hmem => ?_).map fun _ _ => ?_
      · exact (text_comes fun hlong => h (.of_field? hdirs (.item hmem hlong))).faults
      · exact ⟨hc.names, hc.distinct, hc.checked, hc.escapers⟩
  · exact .ok hc

theorem setDefaultSyntax_collects (hc : Collects [] c) :
    Collects [] (setDefaultSyntax general c) := by
  unfold setDefaultSyntax
  split
  · exact ⟨hc.names, hc.distinct, hc.checked, hc.escapers⟩
  · exact hc

theorem setWhitespace_comes (hc : Collects [] c) :
    Comes (setWhitespace general c) (Collects []) (Fails raw) := by
  unfold setWhitespace
  split
  · split
    · exact .ok ⟨hc.names, hc.distinct, hc.checked, hc.escapers⟩
    · exact .error (.mistake rfl)
  · exact .ok hc

/-! ## Escapers -/

/-- The rule that an entry gives. -/
structure Configures (entry : Value) (rule : EscaperRule) : Prop where
  escaper : ∃ v, entry.field? "path" = some v ∧ v.display = .ok rule.escaper
  extensions : texts ((entry.field? "extensions").getD (.array [])) = .ok rule.extensions

theorem texts_comes {v : Value} (h : v.HoldsLong → raw.HoldsLong)
    (hsingle : v.isIterable = false → Fails raw (.notIterable v.typeName)) :
    Comes (texts v) (fun _ => True) (Fails raw) := by
  cases v with
  | array items =>
      refine (Comes.mapM (P := fun _ _ => True) fun item hmem => ?_).faults
      exact (text_comes fun hlong => h (.item hmem hlong)).faults
  | string | table => trivial
  | _ => exact .error (hsingle rfl)

theorem readEscaper_comes {entry : Value} (hentry : entry ∈ raw.items "escaper") :
    Comes (readEscaper entry) (Configures entry) (Fails raw) := by
  have hraw : ∀ {name : String} {v : Value}, entry.field? name = some v → v.HoldsLong →
      raw.HoldsLong := fun hv hlong => .of_items hentry (.of_field? hv hlong)
  unfold readEscaper
  split
  · next fields =>
      split
      · exact .error (.mistake rfl)
      · next path hpath =>
          have hextensions : Comes (texts ((fields.lookup "extensions").getD (.array [])))
              (fun _ => True) (Fails raw) := by
            cases hv : fields.lookup "extensions" with
            | none => trivial
            | some v => exact texts_comes (hraw hv) fun hsingle => .extensions hentry hv hsingle
          refine hextensions.self.bind fun extensions hread => ?_
          exact (text_comes (hraw hpath)).map fun _ hdisplay =>
            ⟨⟨path, hpath, hdisplay⟩, hread.1⟩
  · exact .error (.mistake rfl)

/-! ## Whole tables -/

/-- A configuration as a table describes it. -/
structure Describes (raw : Value) (c : Config) : Prop where
  default : c.defaultSyntax ∈ c.syntaxes.map (·.1)
  /-- The names of the delimiter sets, which are all different. -/
  names : ∃ names, c.syntaxes.map (·.1) = defaultSyntaxName :: names ∧
    List.Forall₂ Names (raw.items "syntax") names
  distinct : (c.syntaxes.map (·.1)).Nodup
  checked : ∀ named ∈ c.syntaxes, named.2.check = .ok ()
  apart : ∀ named ∈ c.syntaxes,
    named.2.openers.Pairwise fun s t => ¬ s.toList <+: t.toList ∧ ¬ t.toList <+: s.toList
  /-- At every place of every text at most one opener stands. -/
  single : ∀ named ∈ c.syntaxes, ∀ text,
    (named.2.openers.filter (Scanner.beginsWith text)).length ≤ 1
  escapers : ∃ configured, List.Forall₂ Configures (raw.items "escaper") configured ∧
    c.escapers = configured ++ defaultEscapers

theorem checkDefault_comes (c : Config) :
    Comes (checkDefault c) (fun _ => c.defaultSyntax ∈ c.syntaxes.map (·.1)) (Fails raw) := by
  unfold checkDefault
  split
  · next hdefault => exact .ok (lookup_isSome_iff_mem.mp hdefault)
  · exact .error (.mistake rfl)

/-- Of delimiters that do not begin each other, a text begins with one at most. -/
theorem length_filter_beginsWith_le {openers : List String} (text : List Char)
    (h : openers.Pairwise fun s t => ¬ s.toList <+: t.toList ∧ ¬ t.toList <+: s.toList) :
    (openers.filter (Scanner.beginsWith text)).length ≤ 1 := by
  have hfiltered := h.filter (Scanner.beginsWith text)
  have hbegins : ∀ s ∈ openers.filter (Scanner.beginsWith text), s.toList <+: text := fun s hs =>
    Scanner.beginsWith_iff.mp (List.mem_filter.mp hs).2
  match openers.filter (Scanner.beginsWith text), hfiltered, hbegins with
  | [], _, _ => exact Nat.zero_le 1
  | [_], _, _ => exact Nat.le_refl 1
  | s :: t :: _, hfiltered, hbegins =>
      have hapart := (List.pairwise_cons.mp hfiltered).1 t List.mem_cons_self
      have hs := hbegins s List.mem_cons_self
      have ht := hbegins t (List.mem_cons_of_mem s List.mem_cons_self)
      exact ((List.prefix_or_prefix_of_prefix hs ht).elim hapart.1 hapart.2).elim

theorem addEscapers_comes (hc : Collects (raw.items "syntax") c)
    (hdefault : c.defaultSyntax ∈ c.syntaxes.map (·.1)) :
    Comes (addEscapers raw c) (Describes raw) (Fails raw) := by
  have hdescribes : ∀ configured, List.Forall₂ Configures (raw.items "escaper") configured →
      Describes raw { c with escapers := configured ++ defaultEscapers } :=
    fun configured hconfigured =>
      have hapart named hmem := (Delimiters.check_eq_ok_iff.mp (hc.checked named hmem)).2
      { default := hdefault, names := hc.names, distinct := hc.distinct, checked := hc.checked,
        apart := hapart,
        single := fun named hmem text => length_filter_beginsWith_le text (hapart named hmem),
        escapers := ⟨configured, hconfigured, rfl⟩ }
  unfold addEscapers
  split
  · next entries hentries =>
      have hrules : Comes ((raw.items "escaper").mapM readEscaper)
          (List.Forall₂ Configures (raw.items "escaper")) (Fails raw) :=
        Comes.mapM fun entry hmem => readEscaper_comes hmem
      rw [Value.items_of_array hentries] at hrules hdescribes
      exact hrules.map hdescribes
  · next hnone =>
      have hkept := hdescribes [] (by rw [Value.items_of_none hnone]; exact .nil)
      rw [List.nil_append, ← hc.escapers] at hkept
      exact .ok hkept

/-- The escapers come last, behind all that can be known of the delimiter sets. -/
theorem ofTable_comes {Q : Config → Prop} (fields : List (String × Value)) (root : Path)
    (h : ∀ c, Collects ((Value.table fields).items "syntax") c →
      c.defaultSyntax ∈ c.syntaxes.map (·.1) →
        Comes (addEscapers (.table fields) c) Q (Fails (.table fields))) :
    Comes (ofTable fields root) Q (Fails (.table fields)) := by
  have hgeneral : (((Value.table fields).field? "general").getD (.table [])).HoldsLong →
      (Value.table fields).HoldsLong := by
    cases hfield : (Value.table fields).field? "general" with
    | none => exact fun h => nomatch h
    | some general => exact Value.HoldsLong.of_field? hfield
  unfold ofTable
  refine (setDirs_comes hgeneral root (.initial root)).bind fun c₁ h₁ => ?_
  refine (setWhitespace_comes (setDefaultSyntax_collects h₁)).bind fun c₂ h₂ => ?_
  refine (addSyntaxes_comes h₂).bind fun c₃ h₃ => ?_
  exact (checkDefault_comes c₃).bind fun _ hdefault => h c₃ h₃ hdefault

/-- Of a table comes a configuration that it describes, or a fault with a reason in it. -/
theorem ofTable_describes (fields : List (String × Value)) (root : Path) :
    Comes (ofTable fields root) (Describes (.table fields)) (Fails (.table fields)) :=
  ofTable_comes fields root fun _ hc hdefault => addEscapers_comes hc hdefault

end

/-- Extensions that are a number are no mistake that the author is told of. -/
example :
    ofTable [("escaper", .array [.table [("path", .string "html"), ("extensions", .integer 5)]])]
      (.ofString "r") = .error (.notIterable "int") := by
  rfl

/-! ## Loaded configurations -/

/-- Whatever file a configuration comes from, its delimiter sets pass the check. -/
theorem load_comes (fs : FileSystem) (path : Option Path) (root : Path) :
    Comes (load fs path root) (fun c => ∀ named ∈ c.syntaxes, named.2.check = .ok ())
      fun _ => True := by
  unfold load
  refine (Comes.any _).bind fun isFile _ => ?_
  split
  · refine (Comes.any _).bind fun bytes _ => ?_
    unfold ofBytes
    split
    · trivial
    · split
      · trivial
      · trivial
      · next table _ =>
          refine (ofTable_comes table _ fun c hc hdefault => ?_).imp_fault fun _ _ => trivial
          exact (addEscapers_comes hc hdefault).imp fun _ h => h.checked
  · split
    · trivial
    · exact (Collects.initial root).checked

theorem delimiters_checked {c : Config} (hc : ∀ named ∈ c.syntaxes, named.2.check = .ok ())
    {name : Option String} {d : Delimiters} (h : c.delimiters name = .ok d) : d.check = .ok () := by
  unfold delimiters at h
  dsimp only at h
  split at h
  · next found hfound =>
      obtain rfl := Except.ok.inj h
      exact hc (_, found) (mem_of_lookup hfound)
  · cases h

end Config

end TemplateCompiler
