import Dissection.Diagnostic
import Dissection.Failure
import Dissection.Registry
import Dissection.Switch
import Dissection.Text.Character
import Dissection.Text.Pieces
import Dissection.Value

/-!
# The sections of a configuration

One section stands for switches on a command line, the other for the names of a registry.
-/

/-!
## Lists of names

A list of names in a configuration is a list of strings or one string; each string may hold several
names with commas between.
-/

namespace Dissection.Config

/-- The names in a text: what stands between the commas, without blanks around, if anything does. -/
def namesIn (s : String) : List String :=
  (((Text.pieces ',' s.toList).map Text.trim).filter (· ≠ [])).map String.ofList

def stringsOf : List Value → List String
  | [] => []
  | .string s :: r => s :: stringsOf r
  | _ :: r => stringsOf r

/-- The names that a value lists. A value that is no string and no list lists none. -/
def namesOf : Value → List String
  | .string s => namesIn s
  | .list items => (stringsOf items).flatMap namesIn
  | _ => []

def namesUnder (t : Table) (key : String) : List String :=
  ((t.get? key).map namesOf).getD []

/-!
## Rosters from a configuration

The section of the registry lists protocols and heuristic dissectors, and which of them are off.
-/

/-- The pairs of a table from short names to owners. An owner that is blank or no string does not
count. -/
def pairsOfEntries : Table → List (String × String)
  | [] => []
  | (name, .string owner) :: r =>
    let owner := Text.strip owner
    if owner = "" then pairsOfEntries r else (name, owner) :: pairsOfEntries r
  | _ :: r => pairsOfEntries r

/-- The pair in a text, short name and owner with a colon between. Without an owner it is the short
name up to the first underscore; without a short name there is no pair. -/
def pairOf? (s : String) : Option (String × String) :=
  let (name, owner) := (Text.cutAt? ':' s.toList).getD (s.toList, [])
  let name := Text.trim name
  let owner := Text.trim owner
  if name = [] then none
  else
    let owner := if owner = [] then name.takeWhile (· ≠ '_') else owner
    some (String.ofList name, String.ofList owner)

/-- The pairs that a value lists: as a table, or as names with owners. -/
def pairsOf : Value → List (String × String)
  | .table entries => pairsOfEntries entries
  | value => (namesOf value).filterMap pairOf?

/-- The roster that the section of the registry describes. -/
def roster (t : Table) : Roster where
  protocols := namesUnder t "protocols"
  heuristics := ((t.get? "heuristics").map pairsOf).getD []
  disabledProtocols := namesUnder t "disabled_protocols"
  disabledHeuristics := namesUnder t "disabled_heuristics"

/-- The registry that the section of the registry describes. -/
def registry (t : Table) : Registry := Registry.ofRoster (roster t)

/-!
## Options from a configuration

The section of dissection options stands for switches on a command line, which come before those
that the user writes.
-/

inductive Fault where
  | notString (key : String) (value : Value)
  | notRules (value : Value)

def Fault.message : Fault → String
  | .notString key value => "[dissect] " ++ key ++ " must be a string, got " ++ value.display
  | .notRules value => "[dissect] decode_as must be a string or a list, got " ++ value.display

def Fault.value : Fault → Value
  | .notString _ value => value
  | .notRules value => value

/-- The diagnostic of a fault, without details. It quotes the value, so there is none for a value
that is not written. -/
def Fault.diagnose (f : Fault) : Except Failure Diagnostic :=
  if f.value.isWritten then .ok ⟨f.message, []⟩ else .error .numberNotWritten

abbrev Request := Switch × Option String

/-- The request of a key whose value is the argument of a switch. -/
def stringRequest (key : String) (w : Switch) (t : Table) : Except Fault (List Request) :=
  match t.get? key with
  | none => .ok []
  | some (.string s) => .ok [(w, some s)]
  | some value => .error (.notString key value)

/-- The request of the key for name resolution, where false switches all of it off. -/
def nameResolutionRequest (t : Table) : Except Fault (List Request) :=
  match t.get? "name_resolution" with
  | some (.bool false) => .ok [(.noNameResolution, none)]
  | _ => stringRequest "name_resolution" .nameResolution t

/-- The rules that a value lists. They hold commas, so a string is one rule. -/
def rulesOf : Value → Except Fault (List String)
  | .null => .ok []
  | .string s => .ok ([s].map Text.strip |>.filter (· ≠ ""))
  | .list items => .ok ((stringsOf items).map Text.strip |>.filter (· ≠ ""))
  | value => .error (.notRules value)

def ruleRequests (t : Table) : Except Fault (List Request) :=
  match t.get? "decode_as" with
  | none => .ok []
  | some value => (rulesOf value).map fun rules => rules.map fun rule => (.decodeAs, some rule)

def nameRequests (key : String) (w : Switch) (t : Table) : List Request :=
  (namesUnder t key).map fun name => (w, some name)

/-- The requests that the section of dissection options makes, in a fixed order of the keys. -/
def requests (t : Table) : Except Fault (List Request) := do
  let timeStamp ← stringRequest "time_stamp" .timeStamp t
  let seconds ← stringRequest "seconds" .secondsType t
  let names ← nameResolutionRequest t
  let rules ← ruleRequests t
  let keytab ← stringRequest "keytab" .keytab t
  return timeStamp ++ seconds ++ names ++ rules ++ keytab ++
    nameRequests "disable_protocols" .disableProtocol t ++
    nameRequests "enable_protocols" .enableProtocol t ++
    nameRequests "enable_heuristics" .enableHeuristic t ++
    nameRequests "disable_heuristics" .disableHeuristic t

def tokensOf (r : Request) : List String := r.1.flag :: r.2.toList

/-- The command line that the section of dissection options stands for. -/
def arguments (t : Table) : Except Fault (List String) :=
  (requests t).map fun rs => rs.flatMap tokensOf

end Dissection.Config
