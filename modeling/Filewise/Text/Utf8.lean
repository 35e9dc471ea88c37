/-!
# Reading UTF-8

Bytes are read as UTF-8 from the front. The first bytes that are not the start of
an encoded character are a fault; it is described by its place and by how many
bytes can be told to be wrong, or by the fact that the text ends too early.

## Main definitions

* `Utf8.Fault`, `Utf8.fault?`.
* `Utf8.decode`: the text, or the first fault.
* `Utf8.decodeLossy`: the text with marks in place of faults.
-/

namespace Filewise.Utf8

/-- Where bytes stop being UTF-8. -/
structure Fault where
  /-- The number of bytes before the fault. -/
  index : Nat
  /-- How many bytes are wrong; none if bytes are missing at the end. -/
  length : Option Nat
  deriving DecidableEq, Repr

/-- The sentence of a fault. -/
def Fault.message (f : Fault) : String :=
  match f.length with
  | some n => s!"invalid utf-8 sequence of {n} bytes from index {f.index}"
  | none => s!"incomplete utf-8 byte sequence from index {f.index}"

/-- The values that the bytes after a first byte must have, from least to greatest;
nothing if no character starts with that byte. -/
def continuations? (b : UInt8) : Option (List (UInt8 × UInt8)) :=
  if b < 0x80 then some []
  else if b < 0xC2 then none
  else if b < 0xE0 then some [(0x80, 0xBF)]
  else if b = 0xE0 then some [(0xA0, 0xBF), (0x80, 0xBF)]
  else if b = 0xED then some [(0x80, 0x9F), (0x80, 0xBF)]
  else if b < 0xF0 then some [(0x80, 0xBF), (0x80, 0xBF)]
  else if b = 0xF0 then some [(0x90, 0xBF), (0x80, 0xBF), (0x80, 0xBF)]
  else if b < 0xF4 then some [(0x80, 0xBF), (0x80, 0xBF), (0x80, 0xBF)]
  else if b = 0xF4 then some [(0x80, 0x8F), (0x80, 0xBF), (0x80, 0xBF)]
  else none

/-- What is wrong with the bytes after a first byte, of which `done` have been read:
nothing, a number of wrong bytes, or missing ones. -/
def check (done : Nat) : List (UInt8 × UInt8) → List UInt8 → Option (Option Nat)
  | [], _ => none
  | _ :: _, [] => some none
  | (least, greatest) :: wanted, b :: rest =>
    if least ≤ b && b ≤ greatest then check (done + 1) wanted rest else some (some done)

/-- The first fault of bytes that begin at an index, after bytes that have been
looked at already. -/
def faultFrom (index skip : Nat) : List UInt8 → Option Fault
  | [] => none
  | b :: rest =>
    match skip with
    | skip + 1 => faultFrom (index + 1) skip rest
    | 0 =>
      match continuations? b with
      | none => some ⟨index, some 1⟩
      | some wanted =>
        match check 1 wanted rest with
        | some length => some ⟨index, length⟩
        | none => faultFrom (index + 1) wanted.length rest

/-- The first fault of bytes. -/
def fault? (bytes : ByteArray) : Option Fault := faultFrom 0 0 bytes.toList

/-- The text that bytes encode, or their first fault. -/
def decode (bytes : ByteArray) : Except Fault String :=
  match String.fromUTF8? bytes with
  | some text => .ok text
  | none => .error ((fault? bytes).getD ⟨0, none⟩)

/-- The text that bytes encode, with a mark in place of each fault. The first argument
bounds the number of faults. -/
def decodeLossyWithin : Nat → ByteArray → String
  | 0, _ => ""
  | faults + 1, bytes =>
    match decode bytes with
    | .ok text => text
    | .error f =>
      let before := (String.fromUTF8? (bytes.extract 0 f.index)).getD ""
      let after := match f.length with
        | some n => decodeLossyWithin faults (bytes.extract (f.index + n) bytes.size)
        | none => ""
      before ++ "\uFFFD" ++ after

/-- The text that bytes encode, with a mark in place of each fault. -/
def decodeLossy (bytes : ByteArray) : String := decodeLossyWithin (bytes.size + 1) bytes

end Filewise.Utf8
