import Dissection.Failure
import Dissection.Text.Character
import Dissection.Text.Pieces
import Dissection.Toml.Document

/-!
# Loading a configuration

Which file is the configuration, and the table that its content describes. A file that is missing or
malformed describes the empty table; one that is not UTF-8, or has a whole number past the decimal
limit, is a failure.
-/

/-!
## Paths

Paths of files with slashes between the parts. Repeated slashes and parts that are a single point
say nothing; two slashes in front say something else than one, and more than two the same as one.
-/

namespace Dissection.Config

/-- A path: the number of slashes in front, up to two, and the parts. -/
structure Path where
  slashes : Nat
  parts : List String
  deriving DecidableEq, Repr

namespace Path

def ofText (s : String) : Path where
  slashes :=
    match (s.toList.takeWhile (· = '/')).length with
    | 0 => 0
    | 2 => 2
    | _ => 1
  parts :=
    ((Text.pieces '/' s.toList).filter fun part => part ≠ [] ∧ part ≠ ['.']).map String.ofList

/-- The text of a path; a point if there is nothing to write. -/
def text (p : Path) : String :=
  if p.slashes = 0 ∧ p.parts = [] then "."
  else String.ofList (List.replicate p.slashes '/') ++ String.intercalate "/" p.parts

def child (p : Path) (name : String) : Path := { p with parts := p.parts ++ [name] }

end Path

def fileName : String := "dissectopt.toml"

/-- The name of the environment variable that names another file. -/
def fileVariable : String := "DISSECTOPT_CONFIG"

/-- The path of the configuration: the one that is asked for, or the one that the environment names,
or the usual file in the root folder. -/
def path (root : String) (asked : Option String) (environment : Option String) : Path :=
  match asked with
  | some file => .ofText file
  | none =>
    let named := Text.strip (environment.getD "")
    if named = "" then (Path.ofText root).child fileName else .ofText named

/-- The table that a text describes, whatever its line breaks are. -/
def tableOfText (s : String) : Except Failure Table :=
  match Toml.document (String.ofList (Text.unifyBreaks s.toList)) with
  | .ok table => .ok table
  | .error .malformed => .ok []
  | .error (.numberTooLong digits) => .error (.numberTooLong digits)

def tableOf : (content : Option ByteArray) → Except Failure Table
  | none => .ok []
  | some bytes => (Text.Utf8.decode bytes).mapError Failure.notUtf8 >>= tableOfText

def optionSection (t : Table) : Table := t.subtable "dissect"

def registrySection (t : Table) : Table := t.subtable "registry"

end Dissection.Config
