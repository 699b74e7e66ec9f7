import Dissection.CommandLine.Reading
import Dissection.Session
import Dissection.Text.Character

/-!
# Scanning the command line

The switches of a command line are handled in order. The first that is refused ends the scan; else
it ends as the reading does.
-/

/-!
## Usage and help

The line of usage, broken so that it fits the width of the terminal, and the page of help.
-/

namespace Dissection.CommandLine

def textWidth : Nat := 78

def helpColumn : Nat := 24

def spaces (n : Nat) : String := String.ofList (List.replicate n ' ')

def Switch.withWord (w : Switch) : String :=
  match w.valueWord? with
  | some word => w.flag ++ " " ++ word
  | none => w.flag

/-- The parts of the line of usage after the name of the program. -/
def usageParts : List String :=
  "[-h]" :: Switch.all.map fun w => "[" ++ Switch.withWord w ++ "]"

/-- The words on lines no longer than the text width. A line begins after `margin` columns; the line
under way holds `line` and has `column` columns. A word too long for any line has its own. -/
def fillFrom (margin column : Nat) (line : List String) : List String → List (List String)
  | [] => if line = [] then [] else [line]
  | word :: r =>
    if textWidth < column + 1 + word.length ∧ line ≠ [] then
      line :: fillFrom margin (margin + word.length) [word] r
    else fillFrom margin (column + 1 + word.length) (line ++ [word]) r

def usageLabel : String := "usage: "

/-- The usage on as many lines as it needs. A short name of the program leaves room for the parts on
its line, and the others stand under the first; under a long name they start below the label. -/
def usage (program : String) : String :=
  let label := usageLabel.length
  let column := label + program.length
  if 4 * column ≤ 3 * textWidth then
    let lines := fillFrom (column + 1) (label - 1) [] (program :: usageParts)
    usageLabel ++ String.intercalate ("\n" ++ spaces (column + 1)) (lines.map (" ".intercalate ·))
  else
    let lines := fillFrom label (label - 1) [] usageParts
    String.intercalate ("\n" ++ spaces label)
      ((usageLabel ++ program) :: lines.map (" ".intercalate ·))

/-- One flag of the page of help: its help stands beside it if it is short, and below it if not. -/
def helpRow (flag help : String) : String :=
  if flag.length + 4 ≤ helpColumn then
    spaces 2 ++ flag ++ spaces (helpColumn - 2 - flag.length) ++ help ++ "\n"
  else spaces 2 ++ flag ++ "\n" ++ spaces helpColumn ++ help ++ "\n"

/-- A page without runs of empty lines and without empty lines at its ends. -/
def page (s : String) : String :=
  String.ofList (Text.trimBreaks (Text.squeezeBreaks s.toList)) ++ "\n"

def usagePage (program : String) : String := page (usage program ++ "\n\n")

def description : String :=
  "Dissection options: time stamps, name resolution and protocol toggles."

def helpPage (program : String) : String :=
  page (usage program ++ "\n\n" ++ description ++ "\n\n" ++ "options:\n" ++
    helpRow "-h, --help" "show this help message and exit" ++
    String.join (Switch.all.map fun w => helpRow (Switch.withWord w) w.help))

def misusePage (program : String) (m : Misuse) : String :=
  usagePage program ++ program ++ ": error: " ++ m.message ++ "\n"

inductive Verdict where
  | accepted
  | refused (cause : Refusal)
  | help
  | misuse (m : Misuse)
  deriving DecidableEq, Repr

/-- The session that a scan leaves, and how it ends. -/
structure Scan where
  session : Session
  verdict : Verdict
  deriving DecidableEq, Repr

/-- The verdict of an ending that is reached. Strays are a misuse. -/
def Ending.verdict : Ending → Verdict
  | .finished [] => .accepted
  | .finished strays => .misuse (.strays strays)
  | .help => .help
  | .misuse m => .misuse m

def Reading.run (host : Host) (r : Reading) (s : Session) : Scan :=
  match Session.handleAll host r.switches s with
  | (after, none) => ⟨after, r.ending.verdict⟩
  | (after, some cause) => ⟨after, .refused cause⟩

def scan (host : Host) (tokens : List String) (s : Session) : Scan :=
  (Reading.ofTokens tokens).run host s

namespace Verdict

def lines : Verdict → List Line
  | .refused cause => cause.diagnostic.lines
  | _ => []

def exitCode? : Verdict → Option Nat
  | .help => some 0
  | .misuse _ => some 2
  | _ => none

def output (program : String) : Verdict → String
  | .help => helpPage program
  | _ => ""

/-- What is written to the error output besides what is reported. -/
def errorOutput (program : String) : Verdict → String
  | .misuse m => misusePage program m
  | _ => ""

end Verdict

end Dissection.CommandLine
