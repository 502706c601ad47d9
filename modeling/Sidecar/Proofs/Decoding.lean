import Mathlib.Data.String.Basic
import Sidecar.Text.Utf8

/-!
# Characters among bytes

A character that is written somewhere among bytes is read there, whatever the bytes in front of it and behind it are:
its first byte continues no other character, so even an unfinished one in front of it ends there, and its last byte
needs nothing that follows. The main statements are `decodeLossy_char` and, for bytes that are cut in front of a
character, `decodeLossy_append`.
-/

namespace Sidecar.Text.Utf8

/-! ## Cutting in front of a character -/

/-- No byte that continues a character comes next. -/
def StartsCharacter (bytes : List UInt8) : Prop :=
  ∀ b ∈ bytes.head?, b.toNat < 0x80 ∨ 0xBF < b.toNat

theorem tail?_of_starts {low high : Nat} (hlow : 0x80 ≤ low) (hhigh : high ≤ 0xBF) {b : UInt8} {rest : List UInt8}
    (h : StartsCharacter (b :: rest)) : tail? low high b = none := by
  have hb : b.toNat < 0x80 ∨ 0xBF < b.toNat := h b rfl
  unfold tail?
  rw [if_neg]
  simp only [Bool.and_eq_true, decide_eq_true_eq]
  omega

/-- A character that has begun goes on no further than to the beginning of the next one. -/
theorem continue?_append {behind : List UInt8} (h : StartsCharacter behind) (count value : Nat) {low high : Nat}
    (hlow : 0x80 ≤ low) (hhigh : high ≤ 0xBF) (bytes : List UInt8) :
    continue? count low high value (bytes ++ behind) =
      ((continue? count low high value bytes).1, (continue? count low high value bytes).2 ++ behind) := by
  induction count generalizing low high value bytes with
  | zero => rfl
  | succ count ih =>
    cases bytes with
    | nil =>
      cases behind with
      | nil => rfl
      | cons b rest => simp only [List.nil_append, continue?, tail?_of_starts hlow hhigh h]
    | cons b rest =>
      rw [List.cons_append, continue?, continue?]
      cases tail? low high b with
      | some digit => exact ih _ (Nat.le_refl _) (Nat.le_refl _) rest
      | none => rfl

theorem ReadsOn.append {f : List UInt8 → Option Char × List UInt8} (hf : ReadsOn f) {behind : List UInt8}
    (h : StartsCharacter behind) (rest : List UInt8) : f (rest ++ behind) = ((f rest).1, (f rest).2 ++ behind) := by
  induction hf with
  | alone c => rfl
  | continued count value hlow hhigh => exact continue?_append h count value hlow hhigh rest
  | ite p hf hg ihf ihg =>
    dsimp only
    split
    · exact ihf
    · exact ihg

/-- Bytes are read in two parts if the second one begins with a character. -/
theorem scan_append {behind : List UInt8} (h : StartsCharacter behind) (bytes : List UInt8) :
    scan (bytes ++ behind) = scan bytes ++ scan behind := by
  fun_induction scan bytes with
  | case1 => rfl
  | case2 b rest ih =>
    rw [List.cons_append, scan, (readsOn_fromFirst b).append h, ih, List.cons_append]

/-! ## Reading what was written -/

theorem toNat_ofNat {n : Nat} (h : n < 256) : (UInt8.ofNat n).toNat = n := by
  rw [UInt8.toNat_ofNat']
  omega

/-- A byte that continues a character adds six bits. -/
theorem continue?_cons {k low high : Nat} (hlow : low ≤ k + 128) (hhigh : k + 128 ≤ high) (hk : k < 64)
    (count value : Nat) (rest : List UInt8) :
    continue? (count + 1) low high value (UInt8.ofNat (k + 128) :: rest) =
      continue? count 0x80 0xBF (value * 64 + k) rest := by
  have hbyte : tail? low high (UInt8.ofNat (k + 128)) = some k := by
    have hbounds : (low ≤ k + 128 && k + 128 ≤ high) = true := by
      rw [Bool.and_eq_true]
      exact ⟨decide_eq_true hlow, decide_eq_true hhigh⟩
    rw [tail?, toNat_ofNat (by omega), if_pos hbounds, Nat.add_sub_cancel]
  rw [continue?, hbyte]

/-! The first byte of a character tells how many others follow, and which of them the first one may be. -/

theorem fromFirst_one {n : Nat} (h : n ≤ 127) (rest : List UInt8) :
    fromFirst (UInt8.ofNat n) rest = (some (Char.ofNat n), rest) := by
  simp only [fromFirst, toNat_ofNat (show n < 256 by omega)]
  rw [if_pos (by omega)]

theorem fromFirst_two {k : Nat} (hlow : 2 ≤ k) (hhigh : k < 32) (rest : List UInt8) :
    fromFirst (UInt8.ofNat (k + 192)) rest = continue? 1 0x80 0xBF k rest := by
  simp only [fromFirst, toNat_ofNat (show k + 192 < 256 by omega)]
  rw [if_neg (by omega), if_neg (by omega), if_pos (by omega), Nat.add_sub_cancel]

theorem fromFirst_three {k : Nat} (h : k < 16) (rest : List UInt8) :
    fromFirst (UInt8.ofNat (k + 224)) rest =
      continue? 2 (if k = 0 then 0xA0 else 0x80) (if k = 13 then 0x9F else 0xBF) k rest := by
  simp only [fromFirst, toNat_ofNat (show k + 224 < 256 by omega)]
  rw [if_neg (by omega), if_neg (by omega), if_neg (by omega)]
  by_cases hfirst : k = 0
  · subst hfirst
    rfl
  · rw [if_neg (by omega), if_neg hfirst]
    by_cases hsurrogate : k = 13
    · subst hsurrogate
      rfl
    · rw [if_neg (by omega), if_pos (by omega), if_neg hsurrogate, Nat.add_sub_cancel]

theorem fromFirst_four {k : Nat} (h : k ≤ 4) (rest : List UInt8) :
    fromFirst (UInt8.ofNat (k + 240)) rest =
      continue? 3 (if k = 0 then 0x90 else 0x80) (if k = 4 then 0x8F else 0xBF) k rest := by
  simp only [fromFirst, toNat_ofNat (show k + 240 < 256 by omega)]
  rw [if_neg (by omega), if_neg (by omega), if_neg (by omega), if_neg (by omega), if_neg (by omega), if_neg (by omega)]
  by_cases hfirst : k = 0
  · subst hfirst
    rfl
  · rw [if_neg (by omega), if_neg hfirst]
    by_cases hlast : k = 4
    · subst hlast
      rfl
    · rw [if_pos (by omega), if_neg hlast, Nat.add_sub_cancel]

/-- The bytes of a character are read as this character. -/
theorem scan_encodeChar (c : Char) (rest : List UInt8) :
    scan (String.utf8EncodeChar c ++ rest) = some c :: scan rest := by
  have hvalid : c.val.toNat < 0xD800 ∨ 0xDFFF < c.val.toNat ∧ c.val.toNat < 0x110000 := c.valid
  have hc : Char.ofNat c.val.toNat = c := Char.ofNat_toNat c
  unfold String.utf8EncodeChar
  generalize c.val.toNat = n at hvalid hc ⊢
  dsimp only
  by_cases hone : n ≤ 127
  · rw [if_pos hone, List.singleton_append, scan, fromFirst_one hone, hc]
  · rw [if_neg hone]
    by_cases htwo : n ≤ 2047
    · have hsum : n / 64 % 32 * 64 + n % 64 = n := by omega
      rw [if_pos htwo, List.cons_append, List.cons_append, scan, fromFirst_two (by omega) (by omega),
        continue?_cons (by omega) (by omega) (by omega), hsum, continue?, hc]
      rfl
    · rw [if_neg htwo]
      by_cases hthree : n ≤ 65535
      · -- overlong forms and surrogates are kept out by the bounds of the second byte
        have hlow : (if n / 4096 % 16 = 0 then 0xA0 else 0x80) ≤ n / 64 % 64 + 128 := by
          split <;> omega
        have hhigh : n / 64 % 64 + 128 ≤ if n / 4096 % 16 = 13 then 0x9F else 0xBF := by
          split <;> omega
        have hsum : (n / 4096 % 16 * 64 + n / 64 % 64) * 64 + n % 64 = n := by omega
        rw [if_pos hthree, List.cons_append, List.cons_append, List.cons_append, scan, fromFirst_three (by omega),
          continue?_cons hlow hhigh (by omega), continue?_cons (by omega) (by omega) (by omega), hsum, continue?, hc]
        rfl
      · have hlow : (if n / 262144 % 8 = 0 then 0x90 else 0x80) ≤ n / 4096 % 64 + 128 := by
          split <;> omega
        have hhigh : n / 4096 % 64 + 128 ≤ if n / 262144 % 8 = 4 then 0x8F else 0xBF := by
          split <;> omega
        have hsum : ((n / 262144 % 8 * 64 + n / 4096 % 64) * 64 + n / 64 % 64) * 64 + n % 64 = n := by omega
        rw [if_neg hthree, List.cons_append, List.cons_append, List.cons_append, List.cons_append, scan,
          fromFirst_four (by omega), continue?_cons hlow hhigh (by omega),
          continue?_cons (by omega) (by omega) (by omega), continue?_cons (by omega) (by omega) (by omega), hsum,
          continue?, hc]
        rfl

/-- No character begins with a byte that continues one. -/
theorem startsCharacter_encodeChar (c : Char) (rest : List UInt8) :
    StartsCharacter (String.utf8EncodeChar c ++ rest) := by
  intro b hb
  unfold String.utf8EncodeChar at hb
  dsimp only at hb
  split at hb
  · cases hb
    rw [toNat_ofNat (by omega)]
    omega
  · right
    split at hb
    · cases hb
      rw [toNat_ofNat (by omega)]
      omega
    · split at hb
      · cases hb
        rw [toNat_ofNat (by omega)]
        omega
      · cases hb
        rw [toNat_ofNat (by omega)]
        omega

theorem decodeLossy_nil : decodeLossy [] = "" := by
  rw [decodeLossy, scan]
  rfl

/-- Bytes are decoded in two parts if the second one begins with a character. -/
theorem decodeLossy_append {behind : List UInt8} (h : StartsCharacter behind) (bytes : List UInt8) :
    decodeLossy (bytes ++ behind) = decodeLossy bytes ++ decodeLossy behind := by
  rw [decodeLossy, scan_append h, List.map_append, String.ofList_append]
  rfl

/-- A character among bytes is decoded, and does not change how the bytes around it are decoded. -/
theorem decodeLossy_char (front : List UInt8) (c : Char) (behind : List UInt8) :
    decodeLossy (front ++ String.utf8EncodeChar c ++ behind) =
      decodeLossy front ++ String.singleton c ++ decodeLossy behind := by
  have hchar : decodeLossy (String.utf8EncodeChar c ++ behind) = String.singleton c ++ decodeLossy behind := by
    rw [decodeLossy, scan_encodeChar, List.map_cons, ← List.singleton_append, String.ofList_append]
    rfl
  rw [List.append_assoc, decodeLossy_append (startsCharacter_encodeChar c behind), hchar, String.append_assoc]

end Sidecar.Text.Utf8
