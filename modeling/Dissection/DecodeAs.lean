import Dissection.Text.Character
import Dissection.Text.Pieces

/-!
# Decode-as rules

A rule says by which protocol the packets are decoded that a selector picks out in a table of the
dissectors. It is written `table==selector,protocol`. Only its form is checked.
-/

namespace Dissection

structure DecodeAs where
  table : String
  selector : String
  protocol : String
  deriving DecidableEq, Repr

namespace DecodeAs

inductive Defect where
  | missingEquals
  | missingComma
  | emptyTable
  | emptySelector
  | emptyProtocol
  deriving DecidableEq, Repr

/-- Reads a rule: the table before the first `==`, the selector before the next comma, and the
protocol. Blanks around each do not count, and none may be empty. -/
def read (text : String) : Except Defect DecodeAs :=
  match Text.cutAtPair? '=' text.toList with
  | none => .error .missingEquals
  | some (table, rest) =>
    match Text.cutAt? ',' rest with
    | none => .error .missingComma
    | some (selector, protocol) =>
      let table := Text.trim table
      let selector := Text.trim selector
      let protocol := Text.trim protocol
      if table = [] then .error .emptyTable
      else if selector = [] then .error .emptySelector
      else if protocol = [] then .error .emptyProtocol
      else .ok ⟨String.ofList table, String.ofList selector, String.ofList protocol⟩

def Defect.reason : Defect → String
  | .missingEquals => "missing \"==\""
  | .missingComma => "missing \",\" before the protocol"
  | .emptyTable => "empty layer type"
  | .emptySelector => "empty selector"
  | .emptyProtocol => "empty protocol"

def Defect.message (text : String) (d : Defect) : String :=
  "\"" ++ text ++ "\" isn't a valid decode-as rule: " ++ d.reason

def help : List String :=
  ["\tDecode-as rules have the form \"<layer type>==<selector>,<decode-as protocol>\"",
    "\tfor example \"tcp.port==8888,http\""]

end DecodeAs

end Dissection
