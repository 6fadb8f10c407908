import TemplateCompiler.Text.Split

/-!
# Paths

A path is a root and components. Separators that follow one another count as one and components that
stand for the place they are in are dropped, so `a//b/./c` and `a/b/c` are one path; a component
that leads to the parent stays, because what it means depends on the files. Exactly two separators
at the start are a root of their own kind.
-/

namespace TemplateCompiler

inductive PathRoot where
  | relative
  | absolute
  /-- Two separators at the start. -/
  | doubled
deriving DecidableEq

def PathRoot.text : PathRoot → String
  | .relative => ""
  | .absolute => "/"
  | .doubled => "//"

structure Path where
  root : PathRoot
  parts : List String
deriving DecidableEq

namespace Path

/-! ## Reading and writing -/

def rootOf : List Char → PathRoot
  | '/' :: '/' :: '/' :: _ => .absolute
  | '/' :: '/' :: _ => .doubled
  | '/' :: _ => .absolute
  | _ => .relative

def ofString (text : String) : Path where
  root := rootOf text.toList
  parts := ((Text.split '/' text.toList).map String.ofList).filter fun p => p ≠ "" && p ≠ "."

/-- A path without root or components is the current directory. -/
def toString (p : Path) : String :=
  if p.root = .relative && p.parts.isEmpty then "." else p.root.text ++ "/".intercalate p.parts

/-! ## Parts -/

/-- The last component, or nothing. -/
def name (p : Path) : String :=
  p.parts.getLastD ""

def parent (p : Path) : Path :=
  { p with parts := p.parts.dropLast }

/-- The extension of a file name without its point. A point at either end begins no extension. -/
def extension (p : Path) : String :=
  let name := p.name.toList
  let ext := (name.reverse.takeWhile (· ≠ '.')).reverse
  if ext.isEmpty || name.length ≤ ext.length + 1 then "" else String.ofList ext

/-- A path seen from another. An absolute one stays as it is. -/
def join (p q : Path) : Path :=
  if q.root = .relative then { p with parts := p.parts ++ q.parts } else q

/-- The components without those that lead to a parent: each takes away the one before it. -/
def climb (before : List String) : List String → List String
  | [] => before.reverse
  | part :: rest => climb (if part = ".." then before.tail else part :: before) rest

/-- The one absolute path of the place that `p` leads to from the directory `here`: it has no
components that lead to a parent, and a single separator at its start. -/
def resolve (here p : Path) : Path :=
  ⟨.absolute, climb [] (here.join p).parts⟩

end Path

end TemplateCompiler
