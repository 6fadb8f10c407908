import TemplateCompiler.Toml.Value

/-!
# Building a document

A TOML document is a sequence of table headers, array headers and assignments. What they may add to
depends on how a table came about: a table with a header of its own cannot get a second one, a table
that dotted keys made is closed when the next header comes, and what was written as one value, an
inline table or an array, never changes again. An item of the document under construction therefore
is either a finished value, or a table that may still grow, with a mark that says whether it counts
as declared, or an array of tables of which the last may still grow.
-/

namespace TemplateCompiler.Toml

inductive Item where
  | value (v : Value)
  | table (declared : Bool) (entries : List (String × Item))
  | tables (earlier : List (List (String × Item))) (last : List (String × Item))

abbrev Entries := List (String × Item)

/-! ## Finished documents -/

mutual

def Item.finish : Item → Value
  | .value v => v
  | .table _ entries => .table (finishEntries entries)
  | .tables earlier last => .array (finishTables earlier ++ [.table (finishEntries last)])

def finishEntries : List (String × Item) → List (String × Value)
  | [] => []
  | (k, i) :: rest => (k, i.finish) :: finishEntries rest

def finishTables : List (List (String × Item)) → List Value
  | [] => []
  | t :: ts => .table (finishEntries t) :: finishTables ts

end

/-! ## Places in a document -/

/-- Puts an item under a key, in the place of the one that is there. -/
def Entries.set (entries : Entries) (key : String) (item : Item) : Entries :=
  if (entries.lookup key).isSome then
    entries.map fun entry => if entry.1 = key then (key, item) else entry
  else entries ++ [(key, item)]

/-- Changes the entries of the table at a path. Tables that are missing on the way are made, of an
array of tables the last is meant, and a value on the way ends it. -/
def Entries.update (f : Entries → Option Entries) : List String → Entries → Option Entries
  | [], entries => f entries
  | key :: path, entries =>
    match entries.lookup key with
    | none => (Entries.update f path []).map fun inner => entries.set key (.table false inner)
    | some (.table declared inner) =>
      (Entries.update f path inner).map fun inner => entries.set key (.table declared inner)
    | some (.tables earlier last) =>
      (Entries.update f path last).map fun last => entries.set key (.tables earlier last)
    | some (.value _) => none

/-- Is there a declared table, or an array of tables, at a path? -/
def Entries.declaredAt : List String → Entries → Bool
  | [], _ => false
  | [key], entries =>
    match entries.lookup key with
    | some (.table declared _) => declared
    | some (.tables _ _) => true
    | _ => false
  | key :: path, entries =>
    match entries.lookup key with
    | some (.table _ inner) => Entries.declaredAt path inner
    | some (.tables _ last) => Entries.declaredAt path last
    | _ => false

/-- Declares the table under a key, and makes it if it is missing. -/
def Entries.declare (key : String) (entries : Entries) : Option Entries :=
  match entries.lookup key with
  | none => some (entries.set key (.table true []))
  | some (.table _ inner) => some (entries.set key (.table true inner))
  | some _ => none

/-- Adds a table to the array of tables under a key, and makes the array if it is missing. -/
def Entries.grow (key : String) (entries : Entries) : Option Entries :=
  match entries.lookup key with
  | none => some (entries.set key (.tables [] []))
  | some (.tables earlier last) => some (entries.set key (.tables (earlier ++ [last]) []))
  | some _ => none

/-- Adds a value under a new key. -/
def Entries.add (key : String) (v : Value) (entries : Entries) : Option Entries :=
  match entries.lookup key with
  | none => some (entries.set key (.value v))
  | some _ => none

/-! ## Statements -/

structure Document where
  entries : Entries := []
  /-- The table that assignments go to. -/
  header : List String := []
  /-- Tables that dotted keys opened in the current section. -/
  opened : List (List String) := []

namespace Document

/-- A key with at least one part, as the path to its table and its last part. -/
def splitKey (first : String) (more : List String) : List String × String :=
  ((first :: more).dropLast, (first :: more).getLastD first)

/-- Declares the tables that dotted keys opened, as a new header does. -/
def close (d : Document) : Document :=
  { d with
    opened := []
    entries := d.opened.foldl (fun entries path =>
      let (table, key) := splitKey (path.headD "") path.tail
      (entries.update (Entries.declare key) table).getD entries) d.entries }

def openTable (d : Document) (first : String) (more : List String) : Option Document :=
  let d := d.close
  let (table, key) := splitKey first more
  if d.entries.declaredAt (first :: more) then none
  else
    (d.entries.update (Entries.declare key) table).map fun entries =>
      { d with entries := entries, header := first :: more }

def openArray (d : Document) (first : String) (more : List String) : Option Document :=
  let d := d.close
  let (table, key) := splitKey first more
  (d.entries.update (Entries.grow key) table).map fun entries =>
    { d with entries := entries, header := first :: more }

/-- The paths of the tables that a dotted key goes through, seen from the root. -/
def through (d : Document) (table : List String) : List (List String) :=
  (List.range table.length).map fun n => d.header ++ table.take (n + 1)

def assign (d : Document) (first : String) (more : List String) (v : Value) : Option Document :=
  let (table, key) := splitKey first more
  let paths := d.through table
  if paths.any (Entries.declaredAt · d.entries) then none
  else
    (d.entries.update (Entries.add key v) (d.header ++ table)).map fun entries =>
      { d with entries := entries, opened := d.opened ++ paths }

def finish (d : Document) : List (String × Value) :=
  finishEntries d.entries

end Document

/-! ## Inline tables -/

/-- Adds an assignment to an inline table. -/
def Entries.assign (entries : Entries) (first : String) (more : List String) (v : Value) :
    Option Entries :=
  let (table, key) := Document.splitKey first more
  entries.update (Entries.add key v) table

end TemplateCompiler.Toml
