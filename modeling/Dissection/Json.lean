import Dissection.Text.Character
import Dissection.Value

/-!
# JSON

The JSON values that settings are printed as.
-/

namespace Dissection

inductive Json where
  | bool (b : Bool)
  | string (s : String)
  | array (items : List Json)
  | object (entries : List (String × Json))
  deriving Repr, BEq, Inhabited

def Json.strings (xs : List String) : Json := .array (xs.map .string)

def Json.flags (xs : List (String × Bool)) : Json := .object (xs.map fun x => (x.1, .bool x.2))

end Dissection

/-!
## Printing JSON

JSON on several lines, with two spaces for every level, the keys of objects in order, and every
character that is not a printable ASCII one escaped.
-/

namespace Dissection.Json

def unitEscape (n : Nat) : List Char := '\\' :: 'u' :: Text.hexDigits 4 n

/-- The escape of a character by its number: a pair of surrogates past the first plane. -/
def numericEscape (c : Char) : List Char :=
  let n := c.toNat
  if n < 0x10000 then unitEscape n
  else unitEscape (0xD800 + (n - 0x10000) / 0x400) ++ unitEscape (0xDC00 + (n - 0x10000) % 0x400)

def escapedChar (c : Char) : List Char :=
  if c = '"' ∨ c = '\\' then ['\\', c]
  else if c = '\n' then ['\\', 'n']
  else if c = '\r' then ['\\', 'r']
  else if c = '\t' then ['\\', 't']
  else if c = '\x08' then ['\\', 'b']
  else if c = '\x0c' then ['\\', 'f']
  else if 0x20 ≤ c.toNat ∧ c.toNat < 0x7F then [c]
  else numericEscape c

def quoted (s : String) : List Char := '"' :: (s.toList.flatMap escapedChar ++ ['"'])

def newLine (level : Nat) : List Char := '\n' :: List.replicate (2 * level) ' '

/-- The parts on lines of their own with commas between, inside brackets; nothing inside if there
are no parts. -/
def block (first last : Char) (level : Nat) (parts : List (List Char)) : List Char :=
  if parts = [] then [first, last]
  else
    first :: (newLine (level + 1) ++
      (parts.intersperse (',' :: newLine (level + 1))).flatten ++ newLine level ++ [last])

def entry (key : String) (value : List Char) : List Char := quoted key ++ ':' :: ' ' :: value

mutual

/-- A value whose first line has begun on a level. -/
def printAt (level : Nat) : Json → List Char
  | .bool b => (if b then "true" else "false").toList
  | .string s => quoted s
  | .array items => block '[' ']' level (printItems (level + 1) items)
  | .object entries =>
    block '\x7b' '\x7d' level
      ((Text.SortedMap.ofEntries (printEntries (level + 1) entries)).map fun e => entry e.1 e.2)

def printItems (level : Nat) : List Json → List (List Char)
  | [] => []
  | v :: r => v.printAt level :: printItems level r

def printEntries (level : Nat) : List (String × Json) → List (String × List Char)
  | [] => []
  | (key, v) :: r => (key, v.printAt level) :: printEntries level r

end

def print (v : Json) : String := String.ofList (v.printAt 0)

end Dissection.Json
