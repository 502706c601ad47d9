/-!
# Path patterns

A pattern for one component of a path: `?` stands for one character, `*` for any characters, `[abc]` and
`[a-z]` for one of a set, `[!abc]` for one outside of it. A component `**` stands for any directories.

`Pattern.compile` reads a pattern and names the first place where it is malformed; `Pattern.matches` tests a
name against it.
-/

namespace Sidecar.Glob

/-- What is wrong with a pattern. -/
inductive Fault where
  /-- More than two stars in a row. -/
  | wildcards
  /-- Two stars that are not a component of their own. -/
  | recursiveWildcards
  /-- A bracket that opens no set. -/
  | range
deriving DecidableEq, Repr

/-- The wording of a fault. -/
def Fault.message : Fault → String
  | .wildcards => "wildcards are either regular \x60*\x60 or recursive \x60**\x60"
  | .recursiveWildcards => "recursive wildcards must form a single path component"
  | .range => "invalid range pattern"

/-- A malformed pattern. The position counts characters from the start of the pattern. -/
structure PatternError where
  position : Nat
  fault : Fault
deriving DecidableEq, Repr

/-- The wording of a pattern error. -/
def PatternError.message (e : PatternError) : String :=
  s!"Pattern syntax error near position {e.position}: {e.fault.message}"

/-- A member of a set: the characters from `first` to `last`. -/
structure CharRange where
  first : Char
  last : Char
deriving DecidableEq, Repr

/-- Whether a range holds a character. -/
def CharRange.contains (r : CharRange) (c : Char) : Bool :=
  r.first ≤ c && c ≤ r.last

/-- A piece of a pattern. -/
inductive Token where
  | char (c : Char)
  | anyChar
  | anyText
  | anyDirs
  | within (ranges : List CharRange)
  | except (ranges : List CharRange)
deriving DecidableEq, Repr

/-- The separator of path components. -/
def separator : Char := '/'

/-- The members of a set: `a-z` is a range, any other character stands for itself. -/
def readRanges : List Char → List CharRange
  | a :: '-' :: b :: rest => ⟨a, b⟩ :: readRanges rest
  | c :: rest => ⟨c, c⟩ :: readRanges rest
  | [] => []

/-- Reads a set after its opening bracket. A `]` that comes first in the set is a member of it. -/
def readSet? : List Char → Option (Token × List Char)
  | '!' :: first :: rest =>
    match rest.dropWhile (· ≠ ']') with
    | _ :: after => some (.except (readRanges (first :: rest.takeWhile (· ≠ ']'))), after)
    | [] => none
  | first :: rest =>
    if first = '!' then none
    else
      match rest.dropWhile (· ≠ ']') with
      | _ :: after => some (.within (readRanges (first :: rest.takeWhile (· ≠ ']'))), after)
      | [] => none
  | [] => none

theorem length_readSet?_lt {cs : List Char} {token : Token} {rest : List Char}
    (h : readSet? cs = some (token, rest)) : rest.length < cs.length := by
  have tail_lt : ∀ {xs : List Char} {x : Char} {after : List Char},
      xs.dropWhile (· ≠ ']') = x :: after → after.length < xs.length := by
    intro xs x after hx
    have := (xs.dropWhile_suffix (· ≠ ']')).length_le
    rw [hx, List.length_cons] at this
    omega
  simp only [readSet?] at h
  split at h
  · split at h
    · rename_i heq
      simp only [Option.some.injEq, Prod.mk.injEq] at h
      have := tail_lt heq
      simp only [List.length_cons, ← h.2]
      omega
    · simp at h
  · split at h
    · simp at h
    · split at h
      · rename_i heq
        simp only [Option.some.injEq, Prod.mk.injEq] at h
        have := tail_lt heq
        simp only [List.length_cons, ← h.2]
        omega
      · simp at h
  · simp at h

/-- Reads a pattern from a position on. `before` is the character in front of it. -/
def compileFrom (position : Nat) (before : Option Char) :
    List Char → Except PatternError (List Token)
  | [] => .ok []
  | '?' :: rest => do
    return .anyChar :: (← compileFrom (position + 1) (some '?') rest)
  | '*' :: '*' :: '*' :: _ => .error ⟨position + 2, .wildcards⟩
  | '*' :: '*' :: rest =>
    if before ≠ none ∧ before ≠ some separator then .error ⟨position - 1, .recursiveWildcards⟩
    else
      match rest with
      | [] => .ok [.anyDirs]
      | c :: rest => do
        if c = separator then
          return .anyDirs :: (← compileFrom (position + 3) (some separator) rest)
        else .error ⟨position + 2, .recursiveWildcards⟩
  | '*' :: rest => do
    return .anyText :: (← compileFrom (position + 1) (some '*') rest)
  | '[' :: rest =>
    match h : readSet? rest with
    | some (token, after) => do
      have := length_readSet?_lt h
      return token :: (← compileFrom (position + 1 + (rest.length - after.length)) (some ']') after)
    | none => .error ⟨position, .range⟩
  | c :: rest => do
    return .char c :: (← compileFrom (position + 1) (some c) rest)
termination_by cs => cs.length

/-- Reads a pattern. -/
def compile (pattern : String) : Except PatternError (List Token) :=
  compileFrom 0 none pattern.toList

/-- The ends of a list, the whole list first. -/
def ends : List Char → List (List Char)
  | [] => [[]]
  | c :: rest => (c :: rest) :: ends rest

/-- The ends of a path at which a component begins, the whole path first. -/
def componentEnds (cs : List Char) : List (List Char) :=
  cs :: afterSeparators cs
where
  afterSeparators : List Char → List (List Char)
    | [] => []
    | c :: rest => if c = separator then rest :: afterSeparators rest else afterSeparators rest

/-- Whether a token stands for a character. -/
def Token.accepts : Token → Char → Bool
  | .char c, d => c == d
  | .anyChar, _ => true
  | .within ranges, d => ranges.any (·.contains d)
  | .except ranges, d => !ranges.any (·.contains d)
  | .anyText, _ => false
  | .anyDirs, _ => false

/-- Whether tokens match the whole of a text. -/
def matchesAll : List Token → List Char → Bool
  | [], cs => cs.isEmpty
  | .anyText :: tokens, cs => (ends cs).any (matchesAll tokens)
  | .anyDirs :: tokens, cs => (componentEnds cs).any (matchesAll tokens)
  | token :: tokens, cs =>
    match cs with
    | [] => false
    | c :: rest => token.accepts c && matchesAll tokens rest

/-- The text that tokens stand for, if they stand for one text only. -/
def literal? : List Token → Option (List Char)
  | [] => some []
  | .char c :: tokens => (literal? tokens).map (c :: ·)
  | _ :: _ => none

end Sidecar.Glob
