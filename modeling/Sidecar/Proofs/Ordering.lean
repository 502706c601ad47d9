import Mathlib.Data.String.Basic
import Sidecar.Bindings
import Sidecar.Text.Utf8

/-!
# The order of names

Names stand in the order of their characters, and this is the order of their bytes: UTF-8 writes a lesser character
with bytes that are less at the first place where the two differ. So "the least name" means the same for a text and for
its bytes.

The main statement is `encode_lt_encode`. The rest of the module says what is known of names in order: what is bound is
found (`get?_eq_some`), and binding names that are in order already keeps their list as it is (`toList_ofList`).
-/

namespace Sidecar

namespace Text.Utf8

/-! ## Bytes -/

/-- Copying bytes from an index on puts them behind those that have been copied before. -/
theorem toList_loop (bytes : ByteArray) (index : Nat) (copied : List UInt8) :
    ByteArray.toList.loop bytes index copied = copied.reverse ++ bytes.data.toList.drop index := by
  fun_induction ByteArray.toList.loop bytes index copied with
  | case1 index copied hindex ih =>
    have hlength : index < bytes.data.toList.length := by simpa using hindex
    rw [ih, List.drop_eq_getElem_cons hlength]
    simp [ByteArray.get!, hindex]
  | case2 index copied hindex =>
    have hlength : bytes.data.toList.length ≤ index := by simpa using Nat.le_of_not_lt hindex
    rw [List.drop_eq_nil_of_le hlength]
    simp

/-- The bytes of a text are those of its characters. -/
theorem encode_eq_flatMap (s : String) : encode s = s.toList.flatMap String.utf8EncodeChar := by
  have hbytes : s.toUTF8 = (s.toList.flatMap String.utf8EncodeChar).toByteArray :=
    String.utf8Encode_toList.symm
  rw [encode, hbytes, ByteArray.toList, toList_loop, List.toList_data_toByteArray]
  simp

/-- Two runs of bytes differ somewhere, and the first one is less there. -/
def Below (first second : List UInt8) : Prop :=
  ∃ shared a b front back, first = shared ++ a :: front ∧ second = shared ++ b :: back ∧ a < b

theorem Below.append {first second : List UInt8} (h : Below first second) (front back : List UInt8) :
    first ++ front < second ++ back := by
  obtain ⟨shared, a, b, rest, rest', rfl, rfl, hlt⟩ := h
  rw [List.append_assoc, List.append_assoc]
  apply List.append_left_lt
  exact List.cons_lt_cons_iff.2 (.inl hlt)

/-- Bytes that are made of numbers are in the order of these numbers. -/
theorem ofNat_lt_ofNat {m n : Nat} (hlt : m < n) (hn : n < 256) : UInt8.ofNat m < UInt8.ofNat n := by
  rw [UInt8.lt_iff_toNat_lt, UInt8.toNat_ofNat', UInt8.toNat_ofNat']
  omega

theorem Below.head {m n : Nat} (hlt : m < n) (hn : n < 256) (front back : List UInt8) :
    Below (UInt8.ofNat m :: front) (UInt8.ofNat n :: back) :=
  ⟨[], _, _, front, back, rfl, rfl, ofNat_lt_ofNat hlt hn⟩

theorem Below.cons {first second : List UInt8} (h : Below first second) (x : UInt8) :
    Below (x :: first) (x :: second) := by
  obtain ⟨shared, a, b, front, back, rfl, rfl, hlt⟩ := h
  exact ⟨x :: shared, a, b, front, back, rfl, rfl, hlt⟩

/-- Where the first bytes do not decide, the ones behind them do. -/
theorem Below.of_le {m n : Nat} {front back : List UInt8} (hle : m ≤ n) (hn : n < 256)
    (h : m = n → Below front back) : Below (UInt8.ofNat m :: front) (UInt8.ofNat n :: back) := by
  rcases Nat.lt_or_eq_of_le hle with hlt | heq
  · exact .head hlt hn front back
  · subst heq
    exact (h rfl).cons _

/-- A lesser character is written with lesser bytes. -/
theorem below_of_lt {c d : Char} (h : c < d) : Below (String.utf8EncodeChar c) (String.utf8EncodeChar d) := by
  have hlt : c.val.toNat < d.val.toNat := h
  have hd : d.val.toNat < 0x110000 := by
    have hvalid := d.valid
    unfold UInt32.isValidChar Nat.isValidChar at hvalid
    omega
  unfold String.utf8EncodeChar
  generalize c.val.toNat = m at hlt
  generalize d.val.toNat = n at hlt hd
  -- the first byte tells how many there are, so only characters with as many bytes need a closer look
  by_cases hm₁ : m ≤ 127
  · simp only [hm₁, if_true]
    split
    · exact .head hlt (by omega) _ _
    · split
      · exact .head (by omega) (by omega) _ _
      · split
        · exact .head (by omega) (by omega) _ _
        · exact .head (by omega) (by omega) _ _
  have hn₁ : ¬n ≤ 127 := by omega
  simp only [hm₁, hn₁, if_false]
  by_cases hm₂ : m ≤ 2047
  · simp only [hm₂, if_true]
    split
    · refine .of_le (by omega) (by omega) fun _ => ?_
      exact .head (by omega) (by omega) _ _
    · split
      · exact .head (by omega) (by omega) _ _
      · exact .head (by omega) (by omega) _ _
  have hn₂ : ¬n ≤ 2047 := by omega
  simp only [hm₂, hn₂, if_false]
  by_cases hm₃ : m ≤ 65535
  · simp only [hm₃, if_true]
    split
    · refine .of_le (by omega) (by omega) fun _ => ?_
      refine .of_le (by omega) (by omega) fun _ => ?_
      exact .head (by omega) (by omega) _ _
    · exact .head (by omega) (by omega) _ _
  have hn₃ : ¬n ≤ 65535 := by omega
  simp only [hm₃, hn₃, if_false]
  refine .of_le (by omega) (by omega) fun _ => ?_
  refine .of_le (by omega) (by omega) fun _ => ?_
  refine .of_le (by omega) (by omega) fun _ => ?_
  exact .head (by omega) (by omega) _ _

/-- No character is written with no bytes. -/
theorem encodeChar_ne_nil (c : Char) : String.utf8EncodeChar c ≠ [] := by
  unfold String.utf8EncodeChar
  dsimp only
  split
  · simp
  · split
    · simp
    · split <;> simp

theorem flatMap_lt_of_lt {cs ds : List Char} (h : cs < ds) :
    cs.flatMap String.utf8EncodeChar < ds.flatMap String.utf8EncodeChar := by
  induction cs generalizing ds with
  | nil =>
    cases ds with
    | nil => exact absurd h (List.lt_irrefl _)
    | cons d ds =>
      rw [List.flatMap_nil, List.flatMap_cons]
      cases hd : String.utf8EncodeChar d with
      | nil => exact absurd hd (encodeChar_ne_nil d)
      | cons b bytes => exact List.nil_lt_cons _ _
  | cons c cs ih =>
    cases ds with
    | nil => exact absurd h (List.not_lt_nil _)
    | cons d ds =>
      rw [List.flatMap_cons, List.flatMap_cons]
      rcases List.cons_lt_cons_iff.1 h with hlt | ⟨rfl, hlt⟩
      · exact (below_of_lt hlt).append _ _
      · exact List.append_left_lt (ih hlt)

/-- Texts are in the order of their bytes. -/
theorem encode_lt_encode {a b : String} : encode a < encode b ↔ a < b := by
  have hmono : ∀ {a b : String}, a < b → encode a < encode b := by
    intro a b h
    rw [encode_eq_flatMap, encode_eq_flatMap]
    exact flatMap_lt_of_lt (String.lt_iff_toList_lt.1 h)
  refine ⟨fun h => ?_, hmono⟩
  -- the other order of the texts would be the other order of their bytes
  rcases lt_trichotomy a b with hlt | rfl | hgt
  · exact hlt
  · exact absurd h (List.lt_irrefl _)
  · exact absurd h (List.lt_asymm (hmono hgt))

end Text.Utf8

namespace Bindings

/-! ## Names in order -/

/-- What is bound is found, and nothing else. -/
theorem get?_eq_some {b : Bindings} {name text : String} : b.get? name = some text ↔ (name, text) ∈ b.toList := by
  rw [get?, List.lookup_eq_some_iff]
  constructor
  · rintro ⟨before, after, hsplit, -⟩
    rw [hsplit]
    simp
  · intro hmem
    obtain ⟨before, after, hsplit⟩ := List.append_of_mem hmem
    refine ⟨before, after, hsplit, ?_⟩
    intro entry hentry
    have hsorted := b.sorted
    rw [hsplit] at hsorted
    have hlt := (List.pairwise_append.1 hsorted).2.2 entry hentry (name, text) List.mem_cons_self
    rw [bne_iff_ne]
    rintro rfl
    exact String.lt_irrefl _ hlt

/-- A name that is greater than all others is bound behind them. -/
theorem insertSorted_of_greater {name text : String} {entries : List (String × String)}
    (h : ∀ entry ∈ entries, entry.1 < name) : insertSorted name text entries = entries ++ [(name, text)] := by
  induction entries with
  | nil => rfl
  | cons entry rest ih =>
    have hlt := h entry List.mem_cons_self
    have hnot : ¬name < entry.1 := fun hgt => String.lt_irrefl _ (String.lt_trans hgt hlt)
    have hne : name ≠ entry.1 := by
      rintro rfl
      exact String.lt_irrefl _ hlt
    rw [insertSorted, if_neg hnot, if_neg hne, ih fun other hother => h other (List.mem_cons_of_mem entry hother)]
    rfl

theorem toList_foldl_insert {entries : List (String × String)} (b : Bindings)
    (h : (b.toList ++ entries).Pairwise fun x y => x.1 < y.1) :
    (entries.foldl (fun b entry => b.insert entry.1 entry.2) b).toList = b.toList ++ entries := by
  induction entries generalizing b with
  | nil => simp
  | cons entry rest ih =>
    have hgreater : ∀ other ∈ b.toList, other.1 < entry.1 := by
      intro other hother
      exact (List.pairwise_append.1 h).2.2 other hother entry List.mem_cons_self
    have hinsert : (b.insert entry.1 entry.2).toList = b.toList ++ [entry] := insertSorted_of_greater hgreater
    rw [List.foldl_cons, ih]
    · rw [hinsert, List.append_assoc, List.singleton_append]
    · rw [hinsert, List.append_assoc, List.singleton_append]
      exact h

/-- Names that are in order already are bound as they stand. -/
theorem toList_ofList {entries : List (String × String)} (h : entries.Pairwise fun x y => x.1 < y.1) :
    (ofList entries).toList = entries :=
  toList_foldl_insert ∅ h

end Bindings

end Sidecar
