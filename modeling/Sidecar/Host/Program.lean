import Sidecar.Bindings
import Sidecar.Host.Files
import Sidecar.Text.Line
import Sidecar.Text.Utf8

/-!
# Programs of a host

The ordinary programs that scripts call. Each one is a function of its arguments, its input and the files, and
comes to an output, a status and the files it leaves.
-/

namespace Sidecar.Host

/-- What a program is given. -/
structure ProgramInput where
  args : List String
  environment : Bindings := ∅
  input : List UInt8 := []
  directory : List String := []
  tree : FileTree := .empty

/-- What a program comes to. -/
structure ProgramResult where
  output : List UInt8 := []
  complaint : List UInt8 := []
  status : Nat := 0
  tree : FileTree := .empty

namespace Program

/-- The bytes of a text. -/
def bytes (s : String) : List UInt8 :=
  Text.Utf8.encode s

/-- The lines of some bytes, each with its end if it has one. -/
def byteLines (content : List UInt8) : List (List UInt8) :=
  Text.splitLines 10 content

/-- A line without its end. -/
def withoutEnd (line : List UInt8) : List UInt8 :=
  if line.getLast? = some 10 then line.dropLast else line

/-- A line with an end. -/
def withEnd (line : List UInt8) : List UInt8 :=
  withoutEnd line ++ [10]

/-! ## Formatted output -/

/-- The value of an octal digit. -/
def octalDigit? (c : Char) : Option Nat :=
  if '0' ≤ c ∧ c ≤ '7' then some (c.toNat - '0'.toNat) else none

/-- Reads up to so many octal digits. -/
def octalValue : Nat → Nat → List Char → Nat × List Char
  | 0, value, cs => (value, cs)
  | _, value, [] => (value, [])
  | count + 1, value, c :: rest =>
    match octalDigit? c with
    | some d => octalValue count (value * 8 + d) rest
    | none => (value, c :: rest)

/-- The character that a letter stands for behind a backslash. -/
def escapeLetter? : Char → Option UInt8
  | 'a' => some 7
  | 'b' => some 8
  | 't' => some 9
  | 'n' => some 10
  | 'v' => some 11
  | 'f' => some 12
  | 'r' => some 13
  | '\\' => some 92
  | _ => none

/-- Replaces what stands behind backslashes. A `\c` ends the text; then the second value is true. -/
def unescape (zeroed : Bool) : Nat → List Char → List UInt8 × Bool
  | 0, _ => ([], false)
  | _, [] => ([], false)
  | fuel + 1, '\\' :: c :: rest =>
    let next (front : List UInt8) (rest : List Char) : List UInt8 × Bool :=
      let (out, stop) := unescape zeroed fuel rest
      (front ++ out, stop)
    if c = 'c' then ([], true)
    else
      match escapeLetter? c with
      | some b => next [b] rest
      | none =>
        if c = '\x22' ∧ !zeroed then next [34] rest
        else if (octalDigit? c).isSome ∧ (!zeroed ∨ c = '0') then
          let digits := if zeroed then rest else c :: rest
          let (value, rest) := octalValue 3 0 digits
          next [UInt8.ofNat value] rest
        else next ([92] ++ bytes c.toString) rest
  | fuel + 1, c :: rest =>
    let (out, stop) := unescape zeroed fuel rest
    (bytes c.toString ++ out, stop)

/-- Reads an integer as far as it goes. -/
def leadingInt (s : String) : Int :=
  let cs := s.toList.dropWhile (· = ' ')
  match cs with
  | '\x27' :: c :: _ => c.toNat
  | '\x22' :: c :: _ => c.toNat
  | '-' :: rest => -(Nat.ofDigitChars 10 (rest.takeWhile Char.isDigit) 0 : Int)
  | '+' :: rest => Nat.ofDigitChars 10 (rest.takeWhile Char.isDigit) 0
  | '0' :: 'x' :: rest =>
    rest.foldl (fun n c =>
      let d := if c.isDigit then c.toNat - 48 else c.toLower.toNat - 87
      n * 16 + d) 0
  | cs => Nat.ofDigitChars 10 (cs.takeWhile Char.isDigit) 0

/-- How a value is laid out. -/
structure Layout where
  left : Bool := false
  zero : Bool := false
  plus : Bool := false
  width : Nat := 0
  precision : Option Nat := none

/-- Fills a text up to the width. -/
def Layout.fill (l : Layout) (text : List UInt8) (numeric : Bool) : List UInt8 :=
  let missing := l.width - text.length
  if l.left then text ++ List.replicate missing 32
  else if l.zero && numeric then
    match text with
    | 45 :: rest => 45 :: List.replicate missing 48 ++ rest
    | text => List.replicate missing 48 ++ text
  else List.replicate missing 32 ++ text

/-- Reads the flags, the width and the precision of a directive. -/
def layoutOf (cs : List Char) : Layout × List Char :=
  let (flags, rest) := cs.span fun c => "-0+ #".toList.contains c
  let (width, rest) := rest.span Char.isDigit
  let (precision, rest) := match rest with
    | '.' :: rest =>
      let (digits, rest) := rest.span Char.isDigit
      (some (Nat.ofDigitChars 10 digits 0), rest)
    | rest => (none, rest)
  ({ left := flags.contains '-'
     zero := flags.contains '0'
     plus := flags.contains '+'
     width := Nat.ofDigitChars 10 width 0
     precision := precision }, rest)

/-- Writes the arguments once by a format. The result is the output, the arguments that are left, and whether
the output ends here for good. -/
def formatOnce : Nat → List Char → List String → List UInt8 × List String × Bool
  | 0, _, args => ([], args, false)
  | _, [], args => ([], args, false)
  | fuel + 1, '%' :: '%' :: rest, args =>
    let (out, args, stop) := formatOnce fuel rest args
    (37 :: out, args, stop)
  | fuel + 1, '%' :: rest, args =>
    let (layout, rest) := layoutOf rest
    let arg := args.head?.getD ""
    let others := args.tail
    let next (front : List UInt8) (rest : List Char) : List UInt8 × List String × Bool :=
      let (out, args, stop) := formatOnce fuel rest others
      (front ++ out, args, stop)
    let number (text : String) : List UInt8 := layout.fill (bytes text) true
    match rest with
    | 's' :: rest =>
      let text := bytes arg
      next (layout.fill (match layout.precision with
        | some n => text.take n
        | none => text) false) rest
    | 'c' :: rest => next (layout.fill ((bytes arg).take 1) false) rest
    | 'b' :: rest =>
      let (text, stop) := unescape true (arg.length + 1) arg.toList
      if stop then (text, others, true) else next (layout.fill text false) rest
    | 'd' :: rest | 'i' :: rest | 'u' :: rest =>
      let n := leadingInt arg
      next (number (if layout.plus && 0 ≤ n then "+" ++ toString n else toString n)) rest
    | 'x' :: rest => next (number (String.ofList (Nat.toDigits 16 (leadingInt arg).toNat))) rest
    | 'o' :: rest => next (number (String.ofList (Nat.toDigits 8 (leadingInt arg).toNat))) rest
    | rest => next [37] rest
  | fuel + 1, '\\' :: c :: rest, args =>
    let (front, rest) := match octalDigit? c with
      | some _ =>
        let (value, rest) := octalValue 3 0 (c :: rest)
        ([UInt8.ofNat value], rest)
      | none => ((unescape false 2 ['\\', c]).1, rest)
    if c = 'c' then ([], args, true)
    else
      let (out, args, stop) := formatOnce fuel rest args
      (front ++ out, args, stop)
  | fuel + 1, c :: rest, args =>
    let (out, args, stop) := formatOnce fuel rest args
    (bytes c.toString ++ out, args, stop)

/-- Writes arguments by a format, which is used again as long as there are arguments. -/
def formatAll (format : List Char) : Nat → List String → List UInt8
  | 0, _ => []
  | fuel + 1, args =>
    let (out, rest, stop) := formatOnce (format.length + 1) format args
    if stop ∨ rest.isEmpty ∨ rest.length = args.length then out
    else out ++ formatAll format fuel rest

/-- Prints by a format. -/
def printf (i : ProgramInput) : ProgramResult :=
  match i.args with
  | [] => { complaint := bytes "printf: missing operand\n", status := 2, tree := i.tree }
  | "--" :: format :: args | format :: args =>
    { output := formatAll format.toList (args.length + 1) args, tree := i.tree }

/-- Prints the arguments with blanks between them. In `escaped` mode backslashes are always read. -/
def echo (escaped : Bool) (i : ProgramInput) : ProgramResult :=
  let isFlag (s : String) : Bool :=
    s.startsWith "-" && s.length > 1 && (s.toList.drop 1).all fun c =>
      if escaped then c == 'n' else c == 'n' || c == 'e' || c == 'E'
  let flags := if escaped then (i.args.take 1).filter (· = "-n") else i.args.takeWhile isFlag
  let text := " ".intercalate (i.args.drop flags.length)
  let reads := escaped || (flags.any (·.contains 'e'))
  let (out, stop) := if reads then unescape true (text.length + 1) text.toList else (bytes text, false)
  let silent := flags.any (·.contains 'n') || stop
  { output := if silent then out else out ++ [10], tree := i.tree }

/-! ## Files and texts -/

/-- Reads the files that are named, or the input if there are none. Complaints are made about files that
cannot be read. -/
def readAll (name : String) (i : ProgramInput) (paths : List String) :
    List UInt8 × List UInt8 × Nat :=
  let wanted := if paths.isEmpty then ["-"] else paths
  wanted.foldl (fun (content, complaint, status) path =>
    if path = "-" then (content ++ i.input, complaint, status)
    else
      match readFile i.tree i.directory path with
      | .ok more => (content ++ more, complaint, status)
      | .error e =>
        let text := plainReason e
        (content, complaint ++ bytes s!"{name}: {path}: {text}\n", 1)) ([], [], 0)

/-- Prints files. -/
def cat (i : ProgramInput) : ProgramResult :=
  let (content, complaint, status) := readAll "cat" i (i.args.filter (· ≠ "-u"))
  { output := content, complaint := complaint, status := status, tree := i.tree }

/-- Splits a count off the arguments: `-n 3`, `-n3`, `-c 3`, `-c3` or `-3`. -/
def countArgument : List String → Option Nat × Bool × List String
  | "-n" :: n :: rest => (n.toNat?, false, rest)
  | "-c" :: n :: rest => (n.toNat?, true, rest)
  | arg :: rest =>
    let digits (k : Nat) : Option Nat := (String.ofList (arg.toList.drop k)).toNat?
    if arg.startsWith "-n" then (digits 2, false, rest)
    else if arg.startsWith "-c" then (digits 2, true, rest)
    else if arg.startsWith "-" && (digits 1).isSome then (digits 1, false, rest)
    else (none, false, arg :: rest)
  | [] => (none, false, [])

/-- Prints the beginning of files. -/
def head (i : ProgramInput) : ProgramResult :=
  let (count, inBytes, paths) := countArgument i.args
  let count := count.getD 10
  let (content, complaint, status) :=
    if paths = ["/dev/zero"] then (List.replicate count 0, [], 0) else readAll "head" i paths
  let out := if inBytes then content.take count else ((byteLines content).take count).flatten
  { output := out, complaint := complaint, status := status, tree := i.tree }

/-- Prints the end of files. -/
def tail (i : ProgramInput) : ProgramResult :=
  let (count, inBytes, paths) := countArgument i.args
  let (content, complaint, status) := readAll "tail" i paths
  let lines := byteLines content
  let count := count.getD 10
  let out := if inBytes then content.drop (content.length - count)
    else (lines.drop (lines.length - count)).flatten
  { output := out, complaint := complaint, status := status, tree := i.tree }

/-- The words of some bytes. -/
def countWords (content : List UInt8) : Nat :=
  let blank (b : UInt8) : Bool := b == 32 || (9 ≤ b && b ≤ 13)
  (content.foldl (fun (count, inside) b =>
    if blank b then (count, false) else (if inside then count else count + 1, true)) (0, false)).1

/-- Counts lines, words and bytes. -/
def wc (i : ProgramInput) : ProgramResult :=
  let (flags, paths) := i.args.partition fun a => a.startsWith "-" && a.length > 1
  let (content, complaint, status) := readAll "wc" i paths
  let has (c : Char) : Bool := flags.any (·.contains c)
  let wanted := [('l', content.count 10), ('w', countWords content), ('c', content.length)].filter
    fun (c, _) => flags.isEmpty || has c
  let shown := wanted.map fun (_, n) => toString n
  let shown := if wanted.length > 1 then
      shown.map fun s => String.ofList (List.replicate (7 - s.length) ' ') ++ s
    else shown
  let text := " ".intercalate (shown ++ paths)
  { output := bytes (text ++ "\n"), complaint := complaint, status := status, tree := i.tree }

/-- Prints numbers in a row. -/
def seq (i : ProgramInput) : ProgramResult :=
  let ints := i.args.map leadingInt
  let (first, step, last) := match ints with
    | [last] => (1, 1, last)
    | [first, last] => (first, 1, last)
    | [first, step, last] => (first, step, last)
    | _ => ((1 : Int), (1 : Int), (0 : Int))
  let count := if 0 < step then (last - first) / step + 1
    else if step < 0 then (first - last) / (-step) + 1 else 0
  let lines := (List.range count.toNat).map fun (k : Nat) => toString (first + step * (k : Int)) ++ "\n"
  { output := bytes (String.join lines), tree := i.tree }

/-- The entries of a directory that are not hidden. -/
def visibleEntries (t : FileTree) : List String :=
  (t.children.map (·.1)).filter fun name => !name.startsWith "."

/-- Lists directories. -/
def ls (i : ProgramInput) : ProgramResult :=
  let (_, paths) := i.args.partition fun a => a.startsWith "-" && a.length > 1
  let paths := if paths.isEmpty then ["."] else paths
  paths.foldl (fun r path =>
    match i.tree.get? (placeFrom i.directory path) with
    | none =>
      let text := bytes s!"ls: cannot access '{path}': No such file or directory\n"
      { r with complaint := r.complaint ++ text, status := 2 }
    | some t =>
      let names := if t.isDir then visibleEntries t else [path]
      { r with output := r.output ++ bytes (String.join (names.map (· ++ "\n"))) })
    { tree := i.tree }

/-- Changes the files for each path, and complains about paths for which that is not possible. -/
def changeEach (i : ProgramInput) (paths : List String)
    (change : FileTree → List String → String → Except String FileTree) : ProgramResult :=
  paths.foldl (fun r path =>
    match change r.tree (placeFrom i.directory path) path with
    | .ok tree => { r with tree := tree }
    | .error text => { r with complaint := r.complaint ++ bytes (text ++ "\n"), status := 1 })
    { tree := i.tree }

/-- The arguments that are no flags, and whether there is a flag with a letter. -/
def splitFlags (args : List String) : List String × (Char → Bool) :=
  let (flags, paths) := args.partition fun a => a.startsWith "-" && a.length > 1
  (paths, fun c => flags.any (·.contains c))

/-- Makes directories. -/
def mkdir (i : ProgramInput) : ProgramResult :=
  let (paths, has) := splitFlags i.args
  changeEach i paths fun tree trail path =>
    match tree.get? trail with
    | some (.dir _) =>
      if has 'p' then .ok tree else .error s!"mkdir: cannot create directory '{path}': File exists"
    | some (.file _) => .error s!"mkdir: cannot create directory '{path}': File exists"
    | none =>
      if has 'p' || ((tree.get? trail.dropLast).map FileTree.isDir).getD false then
        .ok (tree.insert trail .empty)
      else .error s!"mkdir: cannot create directory '{path}': No such file or directory"

/-- Makes files. -/
def touch (i : ProgramInput) : ProgramResult :=
  let (paths, _) := splitFlags i.args
  changeEach i paths fun tree trail path =>
    if (tree.get? trail).isSome then .ok tree
    else
      match prepareFile tree i.directory path with
      | .ok (_, tree) => .ok tree
      | .error e =>
        let text := plainReason e
        .error s!"touch: cannot touch '{path}': {text}"

/-- Takes an entry away. -/
def eraseAt : List String → FileTree → FileTree
  | [name], .dir entries => .dir (entries.filter (·.1 ≠ name))
  | name :: path, .dir entries =>
    .dir (entries.map fun (n, t) => if n = name then (n, eraseAt path t) else (n, t))
  | _, t => t

/-- Removes files. -/
def rm (i : ProgramInput) : ProgramResult :=
  let (paths, has) := splitFlags i.args
  changeEach i paths fun tree trail path =>
    match tree.get? trail with
    | some (.file _) => .ok (eraseAt trail tree)
    | some (.dir _) =>
      if has 'r' || has 'R' then .ok (eraseAt trail tree)
      else .error s!"rm: cannot remove '{path}': Is a directory"
    | none =>
      if has 'f' then .ok tree
      else .error s!"rm: cannot remove '{path}': No such file or directory"

/-- The place that something is copied to: into a directory, or to the path itself. -/
def destination (tree : FileTree) (trail : List String) (source : List String) : List String :=
  if ((tree.get? trail).map FileTree.isDir).getD false then trail ++ source.getLast?.toList else trail

/-- Copies or moves a file. -/
def transfer (name : String) (move : Bool) (i : ProgramInput) : ProgramResult :=
  let (paths, _) := splitFlags i.args
  match paths with
  | [source, target] =>
    let origin := placeFrom i.directory source
    let place := destination i.tree (placeFrom i.directory target) origin
    match i.tree.get? origin with
    | none =>
      { complaint := bytes s!"{name}: cannot stat '{source}': No such file or directory\n"
        status := 1
        tree := i.tree }
    | some t =>
      let tree := if move then eraseAt origin i.tree else i.tree
      { tree := tree.insert place t }
  | _ => { complaint := bytes s!"{name}: missing file operand\n", status := 1, tree := i.tree }

/-- Copies the input to files and to the output. -/
def tee (i : ProgramInput) : ProgramResult :=
  let (paths, has) := splitFlags i.args
  let r := changeEach i paths fun tree _ path =>
    match prepareFile tree i.directory path with
    | .ok (trail, tree) =>
      let before := if has 'a' then ((tree.get? trail).bind FileTree.content?).getD [] else []
      .ok (tree.insert trail (.file (before ++ i.input)))
    | .error e =>
      let text := plainReason e
      .error s!"tee: {path}: {text}"
  { r with output := i.input }

/-- Less than or equal for bytes, as texts are sorted. -/
def bytesLe : List UInt8 → List UInt8 → Bool
  | [], _ => true
  | _ :: _, [] => false
  | a :: as, b :: bs => if a = b then bytesLe as bs else a < b

/-- Sorts lines. -/
def sort (i : ProgramInput) : ProgramResult :=
  let (paths, has) := splitFlags i.args
  let (content, complaint, status) := readAll "sort" i paths
  let lines := (byteLines content).map withoutEnd
  let value (line : List UInt8) : Int := leadingInt (Text.Utf8.decodeLossy line)
  let sorted := if has 'n' then lines.mergeSort fun a b => value a ≤ value b else lines.mergeSort bytesLe
  let sorted := if has 'u' then sorted.eraseReps else sorted
  let sorted := if has 'r' then sorted.reverse else sorted
  { output := (sorted.map (· ++ [10])).flatten
    complaint := complaint
    status := status
    tree := i.tree }

/-- Drops lines that repeat the line before. -/
def uniq (i : ProgramInput) : ProgramResult :=
  let (paths, _) := splitFlags i.args
  let (content, complaint, status) := readAll "uniq" i paths
  let lines := ((byteLines content).map withoutEnd).eraseReps
  { output := (lines.map (· ++ [10])).flatten, complaint := complaint, status := status, tree := i.tree }

/-- The bytes of a set: ranges and escapes. -/
def byteSet : Nat → List UInt8 → List UInt8
  | 0, _ => []
  | fuel + 1, a :: 45 :: b :: rest =>
    (List.range (b.toNat + 1 - a.toNat)).map (fun k => UInt8.ofNat (a.toNat + k)) ++ byteSet fuel rest
  | fuel + 1, a :: rest => a :: byteSet fuel rest
  | _, [] => []

/-- Replaces or drops bytes. -/
def tr (i : ProgramInput) : ProgramResult :=
  let (sets, has) := splitFlags i.args
  let expanded := sets.map fun s =>
    let raw := (unescape false (s.length + 1) s.toList).1
    byteSet (raw.length + 1) raw
  let out := match expanded with
    | [set] => if has 'd' then i.input.filter (!set.contains ·) else i.input
    | [fromSet, toSet] => i.input.map fun b =>
      match fromSet.findIdx? (· = b) with
      | some k => (toSet[min k (toSet.length - 1)]?).getD b
      | none => b
    | _ => i.input
  { output := out, tree := i.tree }

/-- Whether a list of bytes contains another one. -/
def containsBytes (part : List UInt8) : List UInt8 → Bool
  | [] => part.isEmpty
  | b :: rest => part.isPrefixOf (b :: rest) || containsBytes part rest

/-- Whether a line contains a text. A caret ties the text to the start of the line, a dollar sign to its end. -/
def lineHolds (pattern : List UInt8) (line : List UInt8) : Bool :=
  let atStart := pattern.head? = some 94
  let core := if atStart then pattern.drop 1 else pattern
  let atEnd := core.getLast? = some 36
  let core := if atEnd then core.dropLast else core
  if atStart && atEnd then core == line
  else if atStart then core.isPrefixOf line
  else if atEnd then core.isSuffixOf line
  else containsBytes core line

/-- Prints the lines that contain a text. -/
def grep (i : ProgramInput) : ProgramResult :=
  let (rest, has) := splitFlags i.args
  match rest with
  | [] => { complaint := bytes "Usage: grep [OPTION]... PATTERNS [FILE]...\n", status := 2, tree := i.tree }
  | pattern :: paths =>
    let (content, complaint, status) := readAll "grep" i paths
    let found := (byteLines content).filter fun line =>
      lineHolds (bytes pattern) (withoutEnd line) != has 'v'
    let out := if has 'q' then [] else if has 'c' then bytes (toString found.length ++ "\n")
      else (found.map withEnd).flatten
    { output := out
      complaint := complaint
      status := if status ≠ 0 then 2 else if found.isEmpty then 1 else 0
      tree := i.tree }

/-- Prints environment variables. -/
def printenv (i : ProgramInput) : ProgramResult :=
  if i.args.isEmpty then
    let lines := i.environment.toList.map fun (name, text) => name ++ "=" ++ text ++ "\n"
    { output := bytes (String.join lines), tree := i.tree }
  else
    let values := i.args.map i.environment.get?
    { output := bytes (String.join (values.filterMap fun v => v.map (· ++ "\n")))
      status := if values.all Option.isSome then 0 else 1
      tree := i.tree }

/-- Prints the last name of a path, without an ending. -/
def basename (i : ProgramInput) : ProgramResult :=
  let name := ((placeFrom [] (i.args.head?.getD "")).getLast?).getD "/"
  let ending := (i.args[1]?).getD ""
  let name := if ending ≠ "" && name.endsWith ending && name ≠ ending then
      String.ofList (name.toList.take (name.length - ending.length))
    else name
  { output := bytes (name ++ "\n"), tree := i.tree }

/-- Prints a path without its last name. -/
def dirname (i : ProgramInput) : ProgramResult :=
  let path := i.args.head?.getD ""
  let parts := (path.splitOn "/").dropLast
  let above := if parts.isEmpty then "." else if parts = [""] then "/" else "/".intercalate parts
  { output := bytes (above ++ "\n"), tree := i.tree }

/-- Prints a line again and again. There is no end to it, so that only so much of it is made as a reader is
likely to take. -/
def yes (i : ProgramInput) : ProgramResult :=
  let line := if i.args.isEmpty then "y" else " ".intercalate i.args
  { output := (List.replicate 10000 (bytes (line ++ "\n"))).flatten, tree := i.tree }

/-! ## Tests -/

/-- The value of a test with two operands. -/
def binaryTest? (a op b : String) : Option Bool :=
  let ints (compare : Int → Int → Bool) : Option Bool := some (compare (leadingInt a) (leadingInt b))
  match op with
  | "=" | "==" => some (a == b)
  | "!=" => some (a != b)
  | "-eq" => ints (· == ·)
  | "-ne" => ints (· != ·)
  | "-lt" => ints (· < ·)
  | "-le" => ints (· ≤ ·)
  | "-gt" => ints (· > ·)
  | "-ge" => ints (· ≥ ·)
  | _ => none

/-- The value of a test with one operand. -/
def unaryTest? (i : ProgramInput) (op a : String) : Option Bool :=
  let found := i.tree.get? (placeFrom i.directory a)
  match op with
  | "-n" => some (a ≠ "")
  | "-z" => some (a = "")
  | "-e" | "-r" | "-w" => some (found.isSome && a ≠ "")
  | "-f" => some ((found.bind FileTree.content?).isSome)
  | "-d" => some ((found.map FileTree.isDir).getD false && a ≠ "")
  | "-s" => some (((found.bind FileTree.content?).map (!·.isEmpty)).getD false)
  | "-x" => some ((found.map FileTree.isDir).getD false)
  | _ => none

/-- The value of a test. -/
def testValue? (i : ProgramInput) : Nat → List String → Option Bool
  | 0, _ => none
  | _, [] => some false
  | _, [a] => some (a ≠ "")
  | fuel + 1, "!" :: rest => (testValue? i fuel rest).map (!·)
  | _, [op, a] => unaryTest? i op a
  | _, [a, op, b] => binaryTest? a op b
  | fuel + 1, args =>
    match args.span (· ≠ "-o") with
    | (left, _ :: right) => do
      return (← testValue? i fuel left) || (← testValue? i fuel right)
    | _ =>
      match args.span (· ≠ "-a") with
      | (left, _ :: right) => do
        return (← testValue? i fuel left) && (← testValue? i fuel right)
      | _ => none

/-- Tests a condition. -/
def test (i : ProgramInput) : ProgramResult :=
  let status := match testValue? i 8 i.args with
    | some true => 0
    | some false => 1
    | none => 2
  { status := status, tree := i.tree }

/-- The program of a name. -/
def find? (name : String) : Option (ProgramInput → ProgramResult) :=
  match name with
  | "true" => some fun i => { tree := i.tree }
  | "false" => some fun i => { status := 1, tree := i.tree }
  | "echo" => some (echo false)
  | "printf" => some printf
  | "cat" => some cat
  | "head" => some head
  | "tail" => some tail
  | "wc" => some wc
  | "seq" => some seq
  | "ls" => some ls
  | "mkdir" => some mkdir
  | "touch" => some touch
  | "rm" => some rm
  | "cp" => some (transfer "cp" false)
  | "mv" => some (transfer "mv" true)
  | "tee" => some tee
  | "sort" => some sort
  | "uniq" => some uniq
  | "tr" => some tr
  | "grep" => some grep
  | "printenv" => some printenv
  | "basename" => some basename
  | "dirname" => some dirname
  | "yes" => some yes
  | "test" => some test
  | "[" => some fun i => test { i with args := i.args.dropLast }
  | "pwd" => some fun i => { output := bytes (pathOf i.directory ++ "\n"), tree := i.tree }
  | _ => none

end Program

end Sidecar.Host
