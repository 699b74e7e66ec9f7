import Dissection.Json
import Dissection.Text.Character
import Dissection.Text.Pieces

/-!
# Reading JSON

Every text that writes a JSON value of the kinds that occur in settings is read, with blanks between
its tokens and with any of the escapes of strings. A pair of surrogates is read as the one character
it stands for. The readers return what follows the value.
-/

namespace Dissection.Json

def isSpace (c : Char) : Bool := c = ' ' || c = '\n' || c = '\r' || c = '\t'

def skipSpaces (cs : List Char) : List Char := cs.dropWhile isSpace

def escaped? (c : Char) : Option Char :=
  match c with
  | '"' => some '"'
  | '\\' => some '\\'
  | '/' => some '/'
  | 'b' => some '\x08'
  | 'f' => some '\x0c'
  | 'n' => some '\n'
  | 'r' => some '\r'
  | 't' => some '\t'
  | _ => none

/-- What a UTF-16 unit stands for: a character, the first half of one, or the second half. -/
inductive CodeUnit where
  | char (c : Char)
  | high (bits : Nat)
  | low (bits : Nat)
  deriving DecidableEq, Repr

/-- What the unit with a number below `0x10000` stands for. -/
def CodeUnit.ofNat (n : Nat) : CodeUnit :=
  if 0xD800 ≤ n ∧ n < 0xDC00 then .high (n - 0xD800)
  else if 0xDC00 ≤ n ∧ n < 0xE000 then .low (n - 0xDC00)
  else .char (Char.ofNat n)

/-- Where the reading of a string stands: in its text, after a backslash, or inside the digits of a
unit. The first half of a character that waits for its second half is `high`. -/
inductive Phase where
  | text
  | escape
  | digits (missing value : Nat)
  deriving DecidableEq, Repr

/-- The text up to the closing quotation mark, and what follows it. -/
def readBody? (phase : Phase) (high : Option Nat) : List Char → Option (List Char × List Char)
  | [] => none
  | c :: r =>
    match phase with
    | .text =>
      if c = '\\' then readBody? .escape high r
      else if high.isSome then none
      else if c = '"' then some ([], r)
      else if c.toNat < 0x20 then none
      else (readBody? .text none r).map fun p => (c :: p.1, p.2)
    | .escape =>
      if c = 'u' then readBody? (.digits 4 0) high r
      else if high.isSome then none
      else match escaped? c with
        | some d => (readBody? .text none r).map fun p => (d :: p.1, p.2)
        | none => none
    | .digits missing value =>
      match Text.hexValue? c with
      | none => none
      | some d =>
        if 1 < missing then readBody? (.digits (missing - 1) (16 * value + d)) high r
        else match CodeUnit.ofNat (16 * value + d), high with
          | .char e, none => (readBody? .text none r).map fun p => (e :: p.1, p.2)
          | .high bits, none => readBody? .text (some bits) r
          | .low bits, some first =>
            (readBody? .text none r).map fun p =>
              (Char.ofNat (0x10000 + 0x400 * first + bits) :: p.1, p.2)
          | _, _ => none

def readString? : List Char → Option (String × List Char)
  | '"' :: r => (readBody? .text none r).map fun p => (String.ofList p.1, p.2)
  | _ => none

mutual

def readUpTo? : (bound : Nat) → List Char → Option (Json × List Char)
  | 0, _ => none
  | bound + 1, cs =>
    match skipSpaces cs with
    | '[' :: r =>
      match skipSpaces r with
      | ']' :: rest => some (.array [], rest)
      | r => (readItemsUpTo? bound r).map fun p => (.array p.1, p.2)
    | '\x7b' :: r =>
      match skipSpaces r with
      | '\x7d' :: rest => some (.object [], rest)
      | r => (readEntriesUpTo? bound r).map fun p => (.object p.1, p.2)
    | cs =>
      ((readString? cs).map fun p => (Json.string p.1, p.2)) <|>
      ((Text.readBool? cs).map fun p => (Json.bool p.1, p.2))

/-- The items of an array from an item on, to the closing bracket. -/
def readItemsUpTo? : (bound : Nat) → List Char → Option (List Json × List Char)
  | 0, _ => none
  | bound + 1, cs => do
    let (item, cs) ← readUpTo? bound cs
    match skipSpaces cs with
    | ']' :: rest => return ([item], rest)
    | ',' :: r => do
      let (items, rest) ← readItemsUpTo? bound r
      return (item :: items, rest)
    | _ => none

/-- The entries of an object from an entry on, to the closing brace. -/
def readEntriesUpTo? : (bound : Nat) → List Char → Option (List (String × Json) × List Char)
  | 0, _ => none
  | bound + 1, cs => do
    let (key, cs) ← readString? (skipSpaces cs)
    match skipSpaces cs with
    | ':' :: r => do
      let (value, cs) ← readUpTo? bound r
      match skipSpaces cs with
      | '\x7d' :: rest => return ([(key, value)], rest)
      | ',' :: r => do
        let (entries, rest) ← readEntriesUpTo? bound r
        return ((key, value) :: entries, rest)
      | _ => none
    | _ => none

end

/-- The value that a text writes, if nothing but blanks follows it. -/
def ofText? (s : String) : Option Json :=
  match readUpTo? (2 * s.length + 2) s.toList with
  | some (v, rest) => if skipSpaces rest = [] then some v else none
  | none => none

end Dissection.Json
