import ScopeLint.Text.Blank

/-!
# Settings
-/

namespace ScopeLint

/-- How much a run says about itself. -/
inductive LogLevel where
  | warn
  | info
  | trace
  deriving DecidableEq, Repr

structure Settings where
  quiet : Bool
  verbose : Bool
  rulesPath : Option String
  outputPath : String
  workers : Option Nat
  /-- The file name extensions of source units, without points and with bars between them. -/
  extensions : String
  deriving DecidableEq, Repr

namespace Settings

def standard : Settings where
  quiet := false
  verbose := false
  rulesPath := none
  outputPath := "output.txt"
  workers := none
  extensions := "cpp|hpp|h|c|cc|hh"

/-- The number of workers on a machine with `cores` processors; there is always one. -/
def workerCount (s : Settings) (cores : Nat) : Nat := max (s.workers.getD cores) 1

/-- Whether files with this extension are units. Letters of ASCII count in either case. -/
def accepts (s : Settings) (extension : String) : Bool :=
  (splitAt (· == '|') s.extensions.toList).any fun accepted =>
    (trim accepted).map Char.toLower == extension.toList.map Char.toLower

/-- Being quiet counts more than being verbose. -/
def logLevel (s : Settings) : LogLevel :=
  if s.quiet then .warn else if s.verbose then .trace else .info

end Settings

end ScopeLint
