/-!
# Blank characters

The characters with the Unicode property `White_Space`, and the two operations on texts that depend on
them: cutting blanks off both ends, and splitting a text into words.

`trim_of_no_blank` says that a text which neither begins nor ends with a blank is left alone.
-/

namespace Sidecar.Text

/-- The Unicode property `White_Space`. -/
def isBlank (c : Char) : Bool :=
  let n := c.toNat
  (0x09 ≤ n && n ≤ 0x0D) || n == 0x20 || n == 0x85 || n == 0xA0 || n == 0x1680 ||
    (0x2000 ≤ n && n ≤ 0x200A) || n == 0x2028 || n == 0x2029 || n == 0x202F || n == 0x205F ||
    n == 0x3000

/-- Drops the characters at the end that satisfy `p`. -/
def dropEndWhile (p : Char → Bool) (cs : List Char) : List Char :=
  (cs.reverse.dropWhile p).reverse

/-- Cuts the blanks off both ends of a list of characters. -/
def trimChars (cs : List Char) : List Char :=
  dropEndWhile isBlank (cs.dropWhile isBlank)

/-- Cuts the blanks off both ends of a text. -/
def trim (s : String) : String :=
  String.ofList (trimChars s.toList)

/-- Whether a text holds blanks only. -/
def isBlankText (s : String) : Bool :=
  s.toList.all isBlank

/-- The maximal runs of characters that are not blank, in order. -/
def wordsOf (cs : List Char) : List (List Char) :=
  match _h : cs.dropWhile isBlank with
  | [] => []
  | c :: rest =>
    (c :: rest.takeWhile (fun d => !isBlank d)) :: wordsOf (rest.dropWhile (fun d => !isBlank d))
termination_by cs.length
decreasing_by
  have h₁ : (c :: rest).length ≤ cs.length := _h ▸ (cs.dropWhile_suffix isBlank).length_le
  have h₂ := (rest.dropWhile_suffix (fun d => !isBlank d)).length_le
  simp only [List.length_cons] at h₁
  omega

theorem dropEndWhile_of_getLast {p : Char → Bool} {cs : List Char}
    (h : ∀ c ∈ cs.getLast?, p c = false) : dropEndWhile p cs = cs := by
  rcases List.eq_nil_or_concat cs with rfl | ⟨init, c, rfl⟩
  · rfl
  · have hc : p c = false := h c (by simp)
    simp [dropEndWhile, hc]

/-- A text that neither begins nor ends with a blank is not changed by trimming. -/
theorem trimChars_of_no_blank {cs : List Char} (hfirst : ∀ c ∈ cs.head?, isBlank c = false)
    (hlast : ∀ c ∈ cs.getLast?, isBlank c = false) : trimChars cs = cs := by
  have hdrop : cs.dropWhile isBlank = cs := by
    cases cs with
    | nil => rfl
    | cons c rest => simp [hfirst c (by simp)]
  rw [trimChars, hdrop, dropEndWhile_of_getLast hlast]

end Sidecar.Text
