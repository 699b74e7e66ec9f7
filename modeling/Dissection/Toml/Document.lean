import Dissection.Toml.Reader

/-!
# Documents of TOML

The table that the statements of a document describe. Statements after a header add to its table.
A statement that may not stand where it does is a fault, and comes before the faults of later lines.
-/

/-!
## Scripts of TOML

A document is a list of statements, one a line: a key with its value, the header of a table, or the
header of an element of a list of tables. A fault ends the list and leaves the statements before it.
-/

namespace Dissection.Toml

/-- The rest after a comment, which ends before the line break and holds no control character. -/
def skipComment? : List Char → Option (List Char)
  | '#' :: r =>
    if (r.takeWhile (· ≠ '\n')).any (isForbidden false) then none
    else some (r.dropWhile (· ≠ '\n'))
  | cs => some cs

inductive Statement where
  | assign (key : List String) (value : Value)
  | table (key : List String)
  | element (key : List String)

def readAssignment (cs : List Char) : Except Fault (Statement × List Char) := do
  let (key, cs) ← found (readKey? cs)
  let cs ← found (after? '=' cs)
  let (value, rest) ← readValue (skipSpaces cs)
  return (.assign key value, rest)

/-- A header after its first bracket: of an element between two pairs of brackets, of a table
between one. -/
def readHeader? : List Char → Option (Statement × List Char)
  | '[' :: r => do
    let (key, cs) ← readKey? (skipSpaces r)
    let rest ← after? ']' cs >>= after? ']'
    return (.element key, rest)
  | r => do
    let (key, cs) ← readKey? (skipSpaces r)
    let rest ← after? ']' cs
    return (.table key, rest)

/-- The statement of a line that is not blank; a comment alone is none. -/
def readStatement : List Char → Except Fault (Option Statement × List Char)
  | '#' :: r => .ok (none, '#' :: r)
  | '[' :: r => (found (readHeader? r)).map fun p => (some p.1, p.2)
  | cs => (readAssignment cs).map fun p => (some p.1, p.2)

/-- The statements of a text before its first fault, and that fault if there is one. -/
structure Script where
  statements : List Statement := []
  fault : Option Fault := none

namespace Script

def broken (fault : Fault) : Script := { fault := some fault }

def prepend (statement : Option Statement) (s : Script) : Script :=
  { s with statements := statement.toList ++ s.statements }

def ofTextUpTo : (bound : Nat) → List Char → Script
  | 0, _ => broken .malformed
  | bound + 1, cs =>
    match skipSpaces cs with
    | [] => {}
    | '\n' :: r => ofTextUpTo bound r
    | cs =>
      match readStatement cs with
      | .error fault => broken fault
      | .ok (statement, rest) =>
        prepend statement
          (match skipComment? (skipSpaces rest) with
          | some [] => {}
          | some ('\n' :: r) => ofTextUpTo bound r
          | _ => broken .malformed)

def ofText (cs : List Char) : Script := ofTextUpTo (cs.length + 1) cs

end Script

/-- A document under construction: its keys, the key of the header in force, and the number of
headers so far. -/
structure Draft where
  root : Branch := []
  header : List String := []
  part : Nat := 0

namespace Draft

/-- Changes what the last part of a header key stands for. -/
def atLast (change : String → Branch → Option Branch) (key : List String) (b : Branch) :
    Option Branch :=
  match key.getLast? with
  | none => none
  | some k => b.under (change k) key.dropLast

/-- The draft after one more statement, if the statement may stand here. -/
def add (d : Draft) : Statement → Option Draft
  | .assign key value =>
    (d.root.under (Branch.assign d.part key value) d.header).map fun root => { d with root }
  | .table key =>
    (atLast Branch.openTable key d.root).map fun root => ⟨root, key, d.part + 1⟩
  | .element key =>
    (atLast Branch.openElement key d.root).map fun root => ⟨root, key, d.part + 1⟩

end Draft

/-- The table that statements describe, if each may stand where it does. -/
def tableOf? (statements : List Statement) : Option Table :=
  (statements.foldlM Draft.add {}).map fun d => finished d.root

/-- The table of a script, or its first fault. -/
def Script.table (s : Script) : Except Fault Table :=
  match tableOf? s.statements, s.fault with
  | none, _ => .error .malformed
  | some _, some fault => .error fault
  | some table, none => .ok table

/-- The table that a text describes. Lines end in single line feeds. -/
def document (s : String) : Except Fault Table := (Script.ofText s.toList).table

end Dissection.Toml
