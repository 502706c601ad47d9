import Sidecar.Error
import Sidecar.Text.Blank

/-!
# Shells

The shells that can run the command of a step. A name outside the supported set is kept, so that it only
matters once a shell is needed.
-/

namespace Sidecar

/-- The shell of a step. -/
inductive Shell where
  | bash
  | sh
  | powershell
  | pwsh
  | unspecified
  | unknown (name : String)
deriving DecidableEq, Repr, Inhabited

namespace Shell

/-- Lower case for the letters of ASCII. -/
def lowerCase (cs : List Char) : List Char :=
  cs.map Char.toLower

/-- The shell of a name. Blanks around the name and the case of its ASCII letters do not matter. -/
def ofName (s : String) : Shell :=
  let name := Text.trimChars s.toList
  let lower := String.ofList (lowerCase name)
  if lower = "bash" then .bash
  else if lower = "sh" then .sh
  else if lower = "powershell" then .powershell
  else if lower = "pwsh" then .pwsh
  else if lower = "" ∨ lower = "unspecified" then .unspecified
  else .unknown (String.ofList name)

/-- The name of a shell. -/
def name : Shell → String
  | .bash => "bash"
  | .sh => "sh"
  | .powershell => "powershell"
  | .pwsh => "pwsh"
  | .unspecified => "unspecified"
  | .unknown name => name

/-- Whether this is one of the four supported shells. -/
def isKnown : Shell → Bool
  | .unspecified => false
  | .unknown _ => false
  | _ => true

/-- The program and the flag that run a script. -/
def invocation : Shell → Except ResolutionError (String × String)
  | .bash => .ok ("bash", "-c")
  | .sh => .ok ("sh", "-c")
  | .powershell => .ok ("powershell", "-Command")
  | .pwsh => .ok ("pwsh", "-Command")
  | shell => .error (.unknownShell shell.name)

/-- The line that makes a script stop at its first failure. -/
def preamble : Shell → Except ResolutionError String
  | .bash | .sh => .ok "set -xe\n"
  | .powershell | .pwsh => .ok "$ErrorActionPreference = 'Stop'\n"
  | shell => .error (.unknownShell shell.name)

end Shell

end Sidecar
