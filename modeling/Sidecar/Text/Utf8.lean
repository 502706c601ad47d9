/-!
# UTF-8 text in a stream of bytes

Reading bytes as text in two ways. `decode?` accepts well-formed UTF-8 only. `decodeLossy` reads any bytes:
every maximal run of bytes that could begin a character, but does not go on to be one, stands for one
U+FFFD.

Both are written over `scan`, which takes one character, or one ill-formed run, after the other off the front of the
bytes (`fromFirst`).
-/

namespace Sidecar.Text.Utf8

/-- The bytes of a text. -/
def encode (s : String) : List UInt8 :=
  s.toUTF8.toList

/-- Stands where bytes are no text. -/
def replacement : Char := '\uFFFD'

/-- The value a continuation byte adds, if the byte lies between the bounds. -/
def tail? (low high : Nat) (b : UInt8) : Option Nat :=
  if low ≤ b.toNat && b.toNat ≤ high then some (b.toNat - 0x80) else none

/-- Reads the `count` continuation bytes of a character that has `value` so far. The first of them lies
between `low` and `high`, the others anywhere in the range of continuation bytes. The answer is the
character, or nothing where the sequence breaks off, with the bytes left over. -/
def continue? : (count low high value : Nat) → List UInt8 → Option Char × List UInt8
  | 0, _, _, value, bytes => (some (Char.ofNat value), bytes)
  | _ + 1, _, _, _, [] => (none, [])
  | count + 1, low, high, value, b :: rest =>
    match tail? low high b with
    | some digit => continue? count 0x80 0xBF (value * 64 + digit) rest
    | none => (none, b :: rest)

/-- Reads the character that a first byte begins: how many bytes follow it, and the bounds of the first of
these, keep out overlong forms, surrogates and values above U+10FFFF. -/
def fromFirst (b : UInt8) (rest : List UInt8) : Option Char × List UInt8 :=
  let n := b.toNat
  if n < 0x80 then (some (Char.ofNat n), rest)
  else if n < 0xC2 then (none, rest)
  else if n < 0xE0 then continue? 1 0x80 0xBF (n - 0xC0) rest
  else if n = 0xE0 then continue? 2 0xA0 0xBF 0 rest
  else if n = 0xED then continue? 2 0x80 0x9F (n - 0xE0) rest
  else if n < 0xF0 then continue? 2 0x80 0xBF (n - 0xE0) rest
  else if n = 0xF0 then continue? 3 0x90 0xBF 0 rest
  else if n < 0xF4 then continue? 3 0x80 0xBF (n - 0xF0) rest
  else if n = 0xF4 then continue? 3 0x80 0x8F (n - 0xF0) rest
  else (none, rest)

theorem length_continue?_le (count low high value : Nat) (bytes : List UInt8) :
    (continue? count low high value bytes).2.length ≤ bytes.length := by
  induction count generalizing low high value bytes with
  | zero => simp [continue?]
  | succ count ih =>
    cases bytes with
    | nil => simp [continue?]
    | cons b rest =>
      simp only [continue?]
      split
      · exact Nat.le_trans (ih ..) (Nat.le_succ _)
      · simp

/-- A way to read on behind a first byte: this byte is all there is, or bytes are read that continue a
character. -/
inductive ReadsOn : (List UInt8 → Option Char × List UInt8) → Prop where
  | alone (c : Option Char) : ReadsOn fun rest => (c, rest)
  | continued (count value : Nat) {low high : Nat} (hlow : 0x80 ≤ low) (hhigh : high ≤ 0xBF) :
      ReadsOn fun rest => continue? count low high value rest
  | ite {f g : List UInt8 → Option Char × List UInt8} (p : Prop) [Decidable p] (hf : ReadsOn f)
      (hg : ReadsOn g) : ReadsOn fun rest => if p then f rest else g rest

/-- Which way it is depends on the first byte only. -/
theorem readsOn_fromFirst (b : UInt8) : ReadsOn (fromFirst b) :=
  .ite _ (.alone _) <|
  .ite _ (.alone _) <|
  .ite _ (.continued _ _ (by decide) (by decide)) <|
  .ite _ (.continued _ _ (by decide) (by decide)) <|
  .ite _ (.continued _ _ (by decide) (by decide)) <|
  .ite _ (.continued _ _ (by decide) (by decide)) <|
  .ite _ (.continued _ _ (by decide) (by decide)) <|
  .ite _ (.continued _ _ (by decide) (by decide)) <|
  .ite _ (.continued _ _ (by decide) (by decide)) (.alone _)

theorem ReadsOn.length_le {f : List UInt8 → Option Char × List UInt8} (hf : ReadsOn f)
    (rest : List UInt8) : (f rest).2.length ≤ rest.length := by
  induction hf with
  | alone c => exact Nat.le_refl _
  | continued count value hlow hhigh => exact length_continue?_le ..
  | ite p hf hg ihf ihg =>
    dsimp only
    split
    · exact ihf
    · exact ihg

theorem length_fromFirst_le (b : UInt8) (rest : List UInt8) :
    (fromFirst b rest).2.length ≤ rest.length :=
  (readsOn_fromFirst b).length_le rest

/-- The characters of some bytes, with nothing in the place of each ill-formed run. -/
def scan : List UInt8 → List (Option Char)
  | [] => []
  | b :: rest => (fromFirst b rest).1 :: scan (fromFirst b rest).2
termination_by bytes => bytes.length
decreasing_by exact Nat.lt_succ_of_le (length_fromFirst_le b rest)

/-- The text of some bytes, U+FFFD standing for what is not text. -/
def decodeLossy (bytes : List UInt8) : String :=
  String.ofList ((scan bytes).map (·.getD replacement))

/-- The text of some bytes, if they are well-formed. -/
def decode? (bytes : List UInt8) : Option String :=
  (scan bytes).mapM id |>.map String.ofList

end Sidecar.Text.Utf8
