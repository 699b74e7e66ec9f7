import Dissection.Calendar
import Dissection.Text.Pieces
import Dissection.Toml.Scalar
import Dissection.Value

/-!
# Reading TOML

Values are read from the front of a text and may nest. The keys that they stand under make up a tree
while a document is read.
-/

/-!
## Documents under construction

The tree of keys that the statements of a document build. Every table remembers how it came about,
because that decides which later statements may still add to it: a table may be opened by one header
at most, and dotted keys may add to a table only if no header opened it and no earlier part of the
document did so by dotted keys.
-/

namespace Dissection.Toml

/-- How a table came about: as a step on the way to a longer header, as a step of a dotted key in a
part of the document, or under a header of its own. -/
inductive Standing where
  | implied
  | dotted (part : Nat)
  | opened
  deriving DecidableEq, Repr

/-- Whether a dotted key in a part of the document may add to a table. -/
def Standing.admits (part : Nat) : Standing → Bool
  | .implied => true
  | .dotted p => p = part
  | .opened => false

/-- What a key stands for: a finished value, a table, or a list of tables of which the last may
still grow. -/
inductive Node where
  | value (v : Value)
  | table (standing : Standing) (entries : List (String × Node))
  | tables (earlier : List Value) (last : List (String × Node))

/-- The keys of a table under construction, in the order in which they appeared. -/
abbrev Branch := List (String × Node)

mutual

def Node.toValue : Node → Value
  | .value v => v
  | .table _ entries => .table (finished entries)
  | .tables earlier last => .list (earlier ++ [.table (finished last)])

def finished : List (String × Node) → Table
  | [] => []
  | (key, node) :: r => (key, node.toValue) :: finished r

end

namespace Branch

def get? (b : Branch) (key : String) : Option Node := List.lookup key b

def replace (key : String) (node : Node) : Branch → Branch
  | [] => []
  | (k, n) :: r => if k = key then (k, node) :: r else (k, n) :: replace key node r

def add (key : String) (node : Node) (b : Branch) : Branch := b ++ [(key, node)]

/-- Gives a value to a dotted key, which must be new; the tables on the way must admit it. -/
def assign (part : Nat) : (key : List String) → Value → Branch → Option Branch
  | [], _, _ => none
  | [k], v, b =>
    match b.get? k with
    | none => some (b.add k (.value v))
    | some _ => none
  | k :: ks, v, b =>
    match b.get? k with
    | none => (assign part ks v []).map fun sub => b.add k (.table (.dotted part) sub)
    | some (.table standing sub) =>
      if standing.admits part then
        (assign part ks v sub).map fun sub => b.replace k (.table (.dotted part) sub)
      else none
    | some _ => none

/-- Changes the table under a header key; of a list of tables it is the last, and tables that are
missing on the way are implied. -/
def under (change : Branch → Option Branch) : (key : List String) → Branch → Option Branch
  | [], b => change b
  | k :: ks, b =>
    match b.get? k with
    | none => (under change ks []).map fun sub => b.add k (.table .implied sub)
    | some (.table standing sub) =>
      (under change ks sub).map fun sub => b.replace k (.table standing sub)
    | some (.tables earlier last) =>
      (under change ks last).map fun last => b.replace k (.tables earlier last)
    | some (.value _) => none

/-- Opens the table of a header; it must be new or implied. -/
def openTable (k : String) (b : Branch) : Option Branch :=
  match b.get? k with
  | none => some (b.add k (.table .opened []))
  | some (.table .implied sub) => some (b.replace k (.table .opened sub))
  | some _ => none

/-- Adds an empty table to a list of tables, which is new or was built this way. -/
def openElement (k : String) (b : Branch) : Option Branch :=
  match b.get? k with
  | none => some (b.add k (.tables [] []))
  | some (.tables earlier last) =>
    some (b.replace k (.tables (earlier ++ [.table (finished last)]) []))
  | some _ => none

end Branch

/-!
## Values of TOML

Scalars, lists over several lines, and tables on one line. The readers take a value from the front
of the text and return the rest; those that nest or repeat are bounded by the length of the text.
-/

/-- The rest after spaces, tabs, line breaks and comments. -/
def skipTriviaFrom? (inComment : Bool) : List Char → Option (List Char)
  | [] => some []
  | c :: r =>
    if c = '\n' then skipTriviaFrom? false r
    else if inComment then if isForbidden false c then none else skipTriviaFrom? true r
    else if c = ' ' ∨ c = '\t' then skipTriviaFrom? false r
    else if c = '#' then skipTriviaFrom? true r
    else some (c :: r)

/-- The rest after spaces, tabs, line breaks and comments. -/
def skipTrivia? (cs : List Char) : Option (List Char) := skipTriviaFrom? false cs

def ofMoment : Moment → Value
  | .dateTime d => .dateTime d
  | .date d => .date d
  | .time t => .time t

def readScalar (cs : List Char) : Except Fault (Value × List Char) :=
  match
    ((readString? cs).map fun p => (Value.string p.1, p.2)) <|>
    ((Text.readBool? cs).map fun p => (Value.bool p.1, p.2)) <|>
    ((Moment.read? cs).map fun p => (ofMoment p.1, p.2)) with
  | some read => .ok read
  | none => readNumber cs

mutual

def readValueUpTo : (bound : Nat) → List Char → Except Fault (Value × List Char)
  | 0, _ => .error .malformed
  | bound + 1, cs =>
    match cs with
    | '[' :: r => do
      match ← found (skipTrivia? r) with
      | ']' :: rest => return (.list [], rest)
      | r => do
        let (items, rest) ← readItemsUpTo bound r
        return (.list items, rest)
    | '\x7b' :: r =>
      match skipSpaces r with
      | '\x7d' :: rest => .ok (.table [], rest)
      | r => do
        let (entries, rest) ← readEntriesUpTo bound [] r
        return (.table entries, rest)
    | cs => readScalar cs

/-- The items of a list from an item on, to the closing bracket. -/
def readItemsUpTo : (bound : Nat) → List Char → Except Fault (List Value × List Char)
  | 0, _ => .error .malformed
  | bound + 1, cs => do
    let (item, cs) ← readValueUpTo bound cs
    match ← found (skipTrivia? cs) with
    | ']' :: rest => return ([item], rest)
    | ',' :: r => do
      match ← found (skipTrivia? r) with
      | ']' :: rest => return ([item], rest)
      | r => do
        let (items, rest) ← readItemsUpTo bound r
        return (item :: items, rest)
    | _ => .error .malformed

/-- The entries of a table on one line from an entry on, added to those before them, to the closing
brace. -/
def readEntriesUpTo : (bound : Nat) → Branch → List Char → Except Fault (Table × List Char)
  | 0, _, _ => .error .malformed
  | bound + 1, before, cs => do
    let (key, cs) ← found (readKey? cs)
    let cs ← found (after? '=' cs)
    let (value, cs) ← readValueUpTo bound (skipSpaces cs)
    let entries ← found (before.assign 0 key value)
    match skipSpaces cs with
    | '\x7d' :: rest => return (finished entries, rest)
    | ',' :: r => readEntriesUpTo bound entries (skipSpaces r)
    | _ => .error .malformed

end

def readValue (cs : List Char) : Except Fault (Value × List Char) :=
  readValueUpTo (2 * cs.length + 2) cs

end Dissection.Toml
