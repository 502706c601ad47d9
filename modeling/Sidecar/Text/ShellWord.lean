/-!
# Words of a command line

Writing an argument vector so that a shell reads the same arguments back: an argument with a character
that means something to a shell is put in single quotes, and a single quote inside it is written `'\''`.
-/

namespace Sidecar.Text.ShellWord

/-- Whether a character makes quotes necessary. -/
def isSpecial (c : Char) : Bool :=
  "|&;<>()$\x60\\\"' \t\n*?[#~=%".toList.contains c

/-- An argument inside quotes. -/
def escape : List Char → List Char
  | [] => []
  | '\'' :: rest => ['\'', '\\', '\'', '\''] ++ escape rest
  | c :: rest => c :: escape rest

/-- Writes one argument. -/
def quote (word : String) : String :=
  let cs := word.toList
  if cs.isEmpty || cs.any isSpecial then "'" ++ String.ofList (escape cs) ++ "'" else word

/-- Writes an argument vector, its arguments separated by single spaces. -/
def join (argv : List String) : String :=
  " ".intercalate (argv.map quote)

end Sidecar.Text.ShellWord
