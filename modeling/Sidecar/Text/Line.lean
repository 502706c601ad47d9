/-!
# Lines

The lines of a text. A line ends with a line feed, perhaps after a carriage return; the last line need not
end.
-/

namespace Sidecar.Text

/-- Splits characters after every line feed. Each piece but the last ends with a line feed, and no piece is
empty. -/
def splitLines {α : Type} [DecidableEq α] (feed : α) : List α → List (List α)
  | [] => []
  | c :: rest =>
    if c = feed then [c] :: splitLines feed rest
    else
      match splitLines feed rest with
      | [] => [[c]]
      | line :: lines => (c :: line) :: lines

/-- Putting the lines together again gives the text. -/
@[simp] theorem flatten_splitLines {α : Type} [DecidableEq α] (feed : α) (cs : List α) :
    (splitLines feed cs).flatten = cs := by
  induction cs with
  | nil => rfl
  | cons c rest ih =>
    simp only [splitLines]
    split
    · simp [ih]
    · split
      · rename_i h
        rw [h] at ih
        simp only [List.flatten_nil] at ih
        simp [← ih]
      · rename_i h
        rw [h] at ih
        simp only [List.flatten_cons] at ih
        simp [← ih]

/-- The first line goes up to the first line feed. -/
theorem splitLines_append_cons {α : Type} [DecidableEq α] {feed : α} {line : List α} (h : feed ∉ line)
    (rest : List α) : splitLines feed (line ++ feed :: rest) = (line ++ [feed]) :: splitLines feed rest := by
  induction line with
  | nil => simp [splitLines]
  | cons c line ih =>
    have hc : c ≠ feed := fun heq => h (heq ▸ List.mem_cons_self)
    have hline : feed ∉ line := fun hmem => h (List.mem_cons_of_mem c hmem)
    rw [List.cons_append, splitLines, if_neg hc, ih hline]
    rfl

/-- Characters without a line feed are one line. -/
theorem splitLines_of_not_mem {α : Type} [DecidableEq α] {feed : α} {line : List α} (h : feed ∉ line)
    (hne : line ≠ []) : splitLines feed line = [line] := by
  induction line with
  | nil => exact absurd rfl hne
  | cons c line ih =>
    have hc : c ≠ feed := fun heq => h (heq ▸ List.mem_cons_self)
    have hline : feed ∉ line := fun hmem => h (List.mem_cons_of_mem c hmem)
    rw [splitLines, if_neg hc]
    cases line with
    | nil => rfl
    | cons d line => rw [ih hline (List.cons_ne_nil d line)]

/-- A line without its end. -/
def stripLineEnd (line : List Char) : List Char :=
  match line.reverse with
  | '\n' :: '\r' :: rest => rest.reverse
  | '\n' :: rest => rest.reverse
  | _ => line

/-- The lines of some characters, without their ends. -/
def linesOf (cs : List Char) : List (List Char) :=
  (splitLines '\n' cs).map stripLineEnd

end Sidecar.Text
