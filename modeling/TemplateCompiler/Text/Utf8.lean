import TemplateCompiler.Text.Quoted

/-!
# UTF-8

Files hold bytes and templates are characters. `Utf8.decode` reads well-formed UTF-8 (no overlong
forms, no surrogates, nothing past the last plane), and of other byte sequences it says which bytes
are at fault and why: the maximal run that could still have become a character, with the reason that
it did not. `Utf8.decodeAny` reads on behind such runs.
-/

namespace TemplateCompiler.Text.Utf8

/-- Why a byte sequence is no character. -/
inductive Defect where
  /-- The byte begins no character. -/
  | invalidStart
  /-- The byte after the run does not continue the character that the run began. -/
  | invalidContinuation
  /-- The input ends inside a character. -/
  | unexpectedEnd
deriving DecidableEq

/-- An undecodable run of bytes: where it starts, the first byte, how many bytes it has. -/
structure Malformed where
  position : Nat
  byte : UInt8
  length : Nat
  defect : Defect

def isContinuation (b : UInt8) : Bool :=
  0x80 ≤ b && b < 0xC0

/-- May `b` follow `lead`? After four of the leads the range is narrower, which keeps out overlong
forms, surrogates and what lies past the last plane. -/
def mayFollow (lead b : UInt8) : Bool :=
  isContinuation b &&
    (if lead = 0xE0 then 0xA0 ≤ b
     else if lead = 0xED then b < 0xA0
     else if lead = 0xF0 then 0x90 ≤ b
     else if lead = 0xF4 then b < 0x90
     else true)

/-- How many bytes the character has that `lead` begins. -/
def width? (lead : UInt8) : Option Nat :=
  if lead < 0x80 then some 1
  else if lead < 0xC2 then none
  else if lead < 0xE0 then some 2
  else if lead < 0xF0 then some 3
  else if lead < 0xF5 then some 4
  else none

/-- The bits that a lead byte contributes. -/
def leadBits (width : Nat) (lead : UInt8) : Nat :=
  match width with
  | 1 => lead.toNat
  | 2 => lead.toNat % 0x20
  | 3 => lead.toNat % 0x10
  | _ => lead.toNat % 0x08

/-- What reading on from the current point meets next. -/
inductive Pending where
  /-- A new character. -/
  | fresh
  /-- The inside of a character: its lead, how many bytes are still due, how many were read, and
  the bits so far. -/
  | inside (lead : UInt8) (due read : Nat) (bits : Nat)

/-- Reads on; `position` is that of the next byte and `decoded` holds the characters so far, last
first. -/
def decodeFrom (position : Nat) (decoded : List Char) (pending : Pending) :
    List UInt8 → Except Malformed (List Char)
  | [] =>
    match pending with
    | .fresh => .ok decoded.reverse
    | .inside lead _ read _ => .error ⟨position - read, lead, read, .unexpectedEnd⟩
  | b :: rest =>
    match pending with
    | .fresh =>
      match width? b with
      | none => .error ⟨position, b, 1, .invalidStart⟩
      | some 1 => decodeFrom (position + 1) (Char.ofNat b.toNat :: decoded) .fresh rest
      | some width =>
        decodeFrom (position + 1) decoded (.inside b (width - 1) 1 (leadBits width b)) rest
    | .inside lead due read bits =>
      if if read = 1 then mayFollow lead b else isContinuation b then
        let bits := bits * 0x40 + b.toNat % 0x40
        if due = 1 then decodeFrom (position + 1) (Char.ofNat bits :: decoded) .fresh rest
        else decodeFrom (position + 1) decoded (.inside lead (due - 1) (read + 1) bits) rest
      else .error ⟨position - read, lead, read, .invalidContinuation⟩

def decode (bytes : List UInt8) : Except Malformed (List Char) :=
  decodeFrom 0 [] .fresh bytes

/-! ## Replacing what is malformed -/

/-- The character that stands for bytes that are none. -/
def replacement : Char := '\ufffd'

/-- What a byte at the start of a character comes to. -/
def begin (b : UInt8) : List Char × Pending :=
  match width? b with
  | none => ([replacement], .fresh)
  | some 1 => ([Char.ofNat b.toNat], .fresh)
  | some width => ([], .inside b (width - 1) 1 (leadBits width b))

/-- What the next byte comes to. If it does not continue a character that was begun, it begins the
next one. -/
def Pending.accept (b : UInt8) : Pending → List Char × Pending
  | .fresh => begin b
  | .inside lead due read bits =>
    if if read = 1 then mayFollow lead b else isContinuation b then
      let bits := bits * 0x40 + b.toNat % 0x40
      if due = 1 then ([Char.ofNat bits], .fresh) else ([], .inside lead (due - 1) (read + 1) bits)
    else
      let (chars, pending) := begin b
      (replacement :: chars, pending)

def decodeAnyFrom (pending : Pending) : List UInt8 → List Char
  | [] =>
    match pending with
    | .fresh => []
    | .inside .. => [replacement]
  | b :: rest =>
    let (chars, pending) := pending.accept b
    chars ++ decodeAnyFrom pending rest

/-- Reads any bytes. Each run that `decode` would refuse becomes one replacement character. -/
def decodeAny (bytes : List UInt8) : List Char :=
  decodeAnyFrom .fresh bytes

def encode (text : List Char) : List UInt8 :=
  text.flatMap String.utf8EncodeChar

/-! ## Messages -/

def Defect.reason : Defect → String
  | .invalidStart => "invalid start byte"
  | .invalidContinuation => "invalid continuation byte"
  | .unexpectedEnd => "unexpected end of data"

/-- A run of one byte is shown with its value, a longer one by its first and last position. -/
def Malformed.message (m : Malformed) : String :=
  let run :=
    if m.length = 1 then
      s!"byte 0x{String.ofList (hexDigits 2 m.byte.toNat)} in position {m.position}"
    else s!"bytes in position {m.position}-{m.position + m.length - 1}"
  s!"'utf-8' codec can't decode {run}: {m.defect.reason}"

end TemplateCompiler.Text.Utf8
