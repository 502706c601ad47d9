/-!
# Base64

Reading the standard Base64 alphabet with mandatory padding. A text is read four characters at a time; the
last four may end in `=` or `==`. The error says which character is out of place: the first one when the text
is read from the left, unless a foreign character stands alone at the very end.
-/

namespace Sidecar.Text.Base64

/-- Why a text is not Base64. Offsets and lengths count bytes. -/
inductive DecodeError where
  /-- A character outside the alphabet, or padding where none may stand. -/
  | invalidByte (offset : Nat) (byte : UInt8)
  /-- The number of characters is one that no bytes are written with. -/
  | invalidLength (length : Nat)
  /-- The last character sets bits that belong to no byte. -/
  | invalidLastSymbol (offset : Nat) (byte : UInt8)
  /-- The padding does not fill up the last group. -/
  | invalidPadding
deriving DecidableEq, Repr

/-- The wording of a decoding error. -/
def DecodeError.message : DecodeError → String
  | .invalidByte offset byte => s!"Invalid symbol {byte.toNat}, offset {offset}."
  | .invalidLength length => s!"Invalid input length: {length}"
  | .invalidLastSymbol offset byte => s!"Invalid last symbol {byte.toNat}, offset {offset}."
  | .invalidPadding => "Invalid padding"

/-- The padding character. -/
def pad : UInt8 := 0x3D

/-- The value of a character of the alphabet. -/
def digit? (b : UInt8) : Option Nat :=
  let n := b.toNat
  if 0x41 ≤ n && n ≤ 0x5A then some (n - 0x41)
  else if 0x61 ≤ n && n ≤ 0x7A then some (n - 0x61 + 26)
  else if 0x30 ≤ n && n ≤ 0x39 then some (n - 0x30 + 52)
  else if n == 0x2B then some 62
  else if n == 0x2F then some 63
  else none

/-- The value of the character at an offset. -/
def symbol (offset : Nat) (b : UInt8) : Except DecodeError Nat :=
  match digit? b with
  | some value => .ok value
  | none => .error (.invalidByte offset b)

/-- The three bytes of four values. -/
def fullGroup (a b c d : Nat) : List UInt8 :=
  [UInt8.ofNat (a * 4 + b / 16), UInt8.ofNat (b % 16 * 16 + c / 4), UInt8.ofNat (c % 4 * 64 + d)]

/-- What has been read of the last group: the values so far, and the offset of the first `=`. -/
structure Tail where
  values : List Nat := []
  firstPad : Option Nat := none
  last : UInt8 := 0
deriving Repr

/-- Reads the characters of the last group. A `=` may stand in the third or fourth place; once it has
appeared nothing else may follow. -/
def readTail (start : Nat) : (place : Nat) → Tail → List UInt8 → Except DecodeError Tail
  | _, tail, [] => .ok tail
  | place, tail, b :: rest =>
    if b = pad then
      if place < 2 then .error (.invalidByte (start + (tail.firstPad.getD place)) b)
      else readTail start (place + 1) { tail with firstPad := some (tail.firstPad.getD place) } rest
    else
      match tail.firstPad with
      | some first => .error (.invalidByte (start + first) pad)
      | none =>
        match symbol (start + place) b with
        | .error e => .error e
        | .ok value =>
          readTail start (place + 1) { tail with values := tail.values ++ [value], last := b } rest

/-- The bytes of the last group, which holds at most four characters. -/
def lastGroup (start : Nat) (group : List UInt8) : Except DecodeError (List UInt8) :=
  match readTail start 0 {} group with
  | .error e => .error e
  | .ok tail =>
    match tail.values with
    | [] => if group.isEmpty then .ok [] else .error .invalidPadding
    | [_] => .error (.invalidLength (start + group.length))
    | [a, b] =>
      if group.length ≠ 4 then .error .invalidPadding
      else if b % 16 ≠ 0 then .error (.invalidLastSymbol (start + 1) tail.last)
      else .ok [UInt8.ofNat (a * 4 + b / 16)]
    | [a, b, c] =>
      if group.length ≠ 4 then .error .invalidPadding
      else if c % 4 ≠ 0 then .error (.invalidLastSymbol (start + 2) tail.last)
      else .ok [UInt8.ofNat (a * 4 + b / 16), UInt8.ofNat (b % 16 * 16 + c / 4)]
    | a :: b :: c :: d :: _ => .ok (fullGroup a b c d)

/-- Decodes from an offset on. Every group but the last stands without padding. -/
def decodeFrom (start : Nat) : List UInt8 → Except DecodeError (List UInt8)
  | a :: b :: c :: d :: e :: rest => do
    let a ← symbol start a
    let b ← symbol (start + 1) b
    let c ← symbol (start + 2) c
    let d ← symbol (start + 3) d
    let bytes ← decodeFrom (start + 4) (e :: rest)
    return fullGroup a b c d ++ bytes
  | group => lastGroup start group

/-- A foreign character that stands alone after the last full group, such as a line end: it is reported
before anything else is looked at. -/
def strayLast? (text : List UInt8) : Option UInt8 :=
  if text.length % 4 = 1 then
    text.getLast?.filter fun b => b ≠ pad && (digit? b).isNone
  else none

/-- The bytes that a Base64 text stands for. -/
def decode (text : List UInt8) : Except DecodeError (List UInt8) :=
  match strayLast? text with
  | some b => .error (.invalidByte (text.length - 1) b)
  | none => decodeFrom 0 text

end Sidecar.Text.Base64
