import TemplateCompiler.Text.Properties

/-!
# Delimiters

The six delimiters of a template language: an opening and a closing one for blocks, expressions and
comments. `Delimiters.check` is what a configuration has to pass. It asks for at least two
characters, no blanks, and openers none of which begins another, so that at most one opener matches
at any place of a text.
-/

namespace TemplateCompiler

structure Delimiters where
  blockStart : String := "\x7b%"
  blockEnd : String := "%\x7d"
  exprStart : String := "\x7b\x7b"
  exprEnd : String := "\x7d\x7d"
  commentStart : String := "\x7b#"
  commentEnd : String := "#\x7d"
deriving DecidableEq

namespace Delimiters

/-- The delimiters of a template for which none were chosen. -/
def standard : Delimiters := {}

def toList (d : Delimiters) : List String :=
  [d.blockStart, d.blockEnd, d.exprStart, d.exprEnd, d.commentStart, d.commentEnd]

def openers (d : Delimiters) : List String :=
  [d.blockStart, d.exprStart, d.commentStart]

/-! ## Validity -/

/-- Why a set of delimiters is refused. -/
inductive Fault where
  | tooShort (delimiter : String)
  | holdsBlank (delimiter : String)
  | overlap (first second : String)
deriving DecidableEq

def Fault.message : Fault → String
  | .tooShort s => s!"delimiters must be at least two characters long: \"{s}\""
  | .holdsBlank s => s!"delimiters may not contain white spaces: \"{s}\""
  | .overlap s t => s!"a delimiter may not be the prefix of another delimiter: \"{s}\" vs \"{t}\""

/-- Does one of the two texts begin with the other? -/
def overlapping (s t : String) : Bool :=
  s.toList.isPrefixOf t.toList || t.toList.isPrefixOf s.toList

def delimiterFault? (s : String) : Option Fault :=
  if s.length < 2 then some (.tooShort s)
  else if s.toList.any Text.isBlank then some (.holdsBlank s)
  else none

/-- The first two of the openers that overlap, in order of the first and then of the second. -/
def overlapFault? : List String → Option Fault
  | [] => none
  | s :: rest =>
    match rest.find? (overlapping s) with
    | some t => some (.overlap s t)
    | none => overlapFault? rest

/-- The first reason to refuse `d`, if there is one. -/
def fault? (d : Delimiters) : Option Fault :=
  (d.toList.findSome? delimiterFault?).or (overlapFault? d.openers)

def check (d : Delimiters) : Except Fault Unit :=
  match d.fault? with
  | some f => .error f
  | none => .ok ()

end Delimiters

end TemplateCompiler
