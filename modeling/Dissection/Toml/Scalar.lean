import Dissection.Failure
import Dissection.Text.Character
import Dissection.Value

/-!
# Scalars and keys of TOML

The parts of a line that do not nest. Each reader takes the longest such text at the front and
returns what follows it.
-/

/-!
## Faults of TOML

Why a text describes no table. Of several faults the first in the text counts.
-/

namespace Dissection.Toml

/-- A text is malformed, or a whole number in it has more decimal digits than are read. -/
inductive Fault where
  | malformed
  | numberTooLong (digits : Nat)
  deriving DecidableEq, Repr

/-- What has been found at the front of a text. If it is nothing, the text is malformed. -/
def found {α : Type} (read : Option α) : Except Fault α :=
  match read with
  | some a => .ok a
  | none => .error .malformed

@[simp] theorem found_some {α : Type} (a : α) : found (some a) = .ok a := rfl

@[simp] theorem found_none {α : Type} : found (none : Option α) = .error .malformed := rfl

/-!
## Numbers of TOML

Whole numbers in four bases, decimal fractions with exponents, and the special floating numbers.
Only a decimal whole number has a limit on its digits.
-/

/-- Further digits of a number, each after at most one underscore. -/
def readMoreDigits (isDigit : Char → Bool) : List Char → List Char × List Char
  | '_' :: c :: r =>
    if isDigit c then
      let (digits, rest) := readMoreDigits isDigit r
      (c :: digits, rest)
    else ([], '_' :: c :: r)
  | c :: r =>
    if isDigit c then
      let (digits, rest) := readMoreDigits isDigit r
      (c :: digits, rest)
    else ([], c :: r)
  | [] => ([], [])

/-- At least one digit, with single underscores between digits left out. -/
def readDigitGroup? (isDigit : Char → Bool) : List Char → Option (List Char × List Char)
  | c :: r =>
    if isDigit c then
      let (digits, rest) := readMoreDigits isDigit r
      some (c :: digits, rest)
    else none
  | [] => none

def valueOf (base : Nat) (digits : List Char) : Nat :=
  digits.foldl (fun n c => base * n + (Text.hexValue? c).getD 0) 0

def isDigitOf (base : Nat) (c : Char) : Bool :=
  match Text.hexValue? c with
  | some d => d < base
  | none => false

def baseOf? (c : Char) : Option Nat :=
  match c with
  | 'x' => some 16
  | 'o' => some 8
  | 'b' => some 2
  | _ => none

/-- A whole number in another base than ten: a zero, the letter of the base, and digits. -/
def readBased? : List Char → Option (Value × List Char)
  | '0' :: c :: r => do
    let base ← baseOf? c
    let (digits, rest) ← readDigitGroup? (isDigitOf base) r
    return (.int (valueOf base digits), rest)
  | _ => none

/-- A plus or minus sign if there is one, and whether it is minus. -/
def readSign : List Char → Bool × List Char
  | '-' :: r => (true, r)
  | '+' :: r => (false, r)
  | cs => (false, cs)

/-- The whole part of a decimal: a zero alone, or digits that do not begin with zero. -/
def readWhole? : List Char → Option (List Char × List Char)
  | '0' :: r => some (['0'], r)
  | cs => readDigitGroup? Char.isDigit cs

/-- The digits after a point, if a point and a digit follow. -/
def readFraction? : List Char → Option (List Char × List Char)
  | '.' :: r => readDigitGroup? Char.isDigit r
  | _ => none

/-- The power of ten after an `e`, if a whole number with an optional sign follows one. -/
def readExponent? : List Char → Option (Int × List Char)
  | c :: r =>
    if c = 'e' ∨ c = 'E' then do
      let (negative, r) := readSign r
      let (digits, rest) ← readDigitGroup? Char.isDigit r
      let n : Int := valueOf 10 digits
      return (if negative then -n else n, rest)
    else none
  | [] => none

/-- A whole number in base ten, given its digits, unless they are too many. -/
def decimalWhole (negative : Bool) (digits : List Char) : Except Fault Value :=
  if digits.length ≤ DecimalLimit.maxDigits then
    let n : Int := valueOf 10 digits
    .ok (.int (if negative then -n else n))
  else .error (.numberTooLong digits.length)

/-- A decimal: whole if it has neither a fraction nor an exponent, else floating. -/
def readDecimal (cs : List Char) : Except Fault (Value × List Char) := do
  let (negative, cs) := readSign cs
  let (whole, cs) ← found (readWhole? cs)
  let fraction := readFraction? cs
  let afterFraction := (fraction.map Prod.snd).getD cs
  let exponent := readExponent? afterFraction
  match fraction, exponent with
  | none, none => return (← decimalWhole negative whole, cs)
  | _, _ =>
    let decimals := (fraction.map Prod.fst).getD []
    let power := (exponent.map Prod.fst).getD 0 - decimals.length
    return (.float (Binary64.ofDecimal negative (valueOf 10 (whole ++ decimals)) power),
      (exponent.map Prod.snd).getD afterFraction)

/-- Infinity or the number that is none, with an optional sign. -/
def readSpecial? (cs : List Char) : Option (Value × List Char) :=
  let (negative, cs) := readSign cs
  match cs with
  | 'i' :: 'n' :: 'f' :: rest => some (.float (.infinite negative), rest)
  | 'n' :: 'a' :: 'n' :: rest => some (.float .nan, rest)
  | _ => none

def readNumber (cs : List Char) : Except Fault (Value × List Char) :=
  match readBased? cs <|> readSpecial? cs with
  | some read => .ok read
  | none => readDecimal cs

example : readNumber "0xDEAD_beef # four bytes".toList =
    .ok (.int 0xDEADBEEF, " # four bytes".toList) := by rfl

theorem decimalWhole_of_long {digits : List Char} (h : DecimalLimit.maxDigits < digits.length)
    (negative : Bool) : decimalWhole negative digits = .error (.numberTooLong digits.length) := by
  simp [decimalWhole, Nat.not_le.mpr h]

/-!
## Quoted strings of TOML

Basic strings stand between double quotation marks and know escapes; literal strings stand between
apostrophes and know none. Either kind has a form on one line and a block form between three marks.
-/

/-- Tells the control characters that may not stand in a string or a comment as themselves; in a
block string the line feed may. -/
def isForbidden (block : Bool) (c : Char) : Bool :=
  (c.toNat < 0x20 || c.toNat == 0x7F) && c != '\t' && !(block && c == '\n')

def escaped? (c : Char) : Option Char :=
  match c with
  | 'b' => some '\x08'
  | 't' => some '\t'
  | 'n' => some '\n'
  | 'f' => some '\x0c'
  | 'r' => some '\r'
  | '"' => some '"'
  | '\\' => some '\\'
  | _ => none

/-- The character with a number, unless the number is a surrogate's or past the last one. -/
def scalar? (n : Nat) : Option Char :=
  if n.isValidChar then some (Char.ofNat n) else none

/-- Where the reading of a string stands: in its text, after a backslash, inside the digits of a
character number, or in the blanks that continue a line, before or after the break. -/
inductive Phase where
  | text
  | escape
  | number (missing value : Nat)
  | continued (broken : Bool)
  deriving DecidableEq, Repr

/-- The phase in which the next character is read: a continued line begins at its first character
that is no blank. -/
def Phase.before (c : Char) : Phase → Phase
  | .continued true => if c = ' ' ∨ c = '\t' ∨ c = '\n' then .continued true else .text
  | phase => phase

def push (c : Char) (read : Option (List Char × List Char)) : Option (List Char × List Char) :=
  read.map fun p => (c :: p.1, p.2)

/-- The text up to the closing mark or marks, and what follows them. -/
def readBody? (mark : Char) (block : Bool) (phase : Phase) :
    List Char → Option (List Char × List Char)
  | [] => none
  | c :: r =>
    match phase.before c with
    | .text =>
      if c = mark then
        if block then
          match r with
          | d :: e :: rest =>
            if d = mark ∧ e = mark then some ([], rest) else push c (readBody? mark block .text r)
          | _ => none
        else some ([], r)
      else if c = '\\' ∧ mark = '"' then readBody? mark block .escape r
      else if isForbidden block c then none
      else push c (readBody? mark block .text r)
    | .escape =>
      if c = 'u' then readBody? mark block (.number 4 0) r
      else if c = 'U' then readBody? mark block (.number 8 0) r
      else if block ∧ (c = ' ' ∨ c = '\t') then readBody? mark block (.continued false) r
      else if block ∧ c = '\n' then readBody? mark block (.continued true) r
      else match escaped? c with
        | some d => push d (readBody? mark block .text r)
        | none => none
    | .number missing value =>
      match Text.hexValue? c with
      | none => none
      | some d =>
        if 1 < missing then readBody? mark block (.number (missing - 1) (16 * value + d)) r
        else match scalar? (16 * value + d) with
          | some e => push e (readBody? mark block .text r)
          | none => none
    | .continued broken =>
      if c = ' ' ∨ c = '\t' then readBody? mark block (.continued broken) r
      else if c = '\n' then readBody? mark block (.continued true) r
      else none

/-- Up to two more marks right after the closing three belong to the text. -/
def closeBlock (mark : Char) (body : List Char) : List Char → List Char × List Char
  | a :: b :: r =>
    if a = mark then if b = mark then (body ++ [mark, mark], r) else (body ++ [mark], b :: r)
    else (body, a :: b :: r)
  | [a] => if a = mark then (body ++ [mark], []) else (body, [a])
  | [] => (body, [])

/-- A block string after its opening marks: a line break right after them does not count. -/
def readBlock? (mark : Char) (cs : List Char) : Option (String × List Char) :=
  let cs := match cs with
    | '\n' :: r => r
    | cs => cs
  (readBody? mark true .text cs).map fun (body, rest) =>
    let (body, rest) := closeBlock mark body rest
    (String.ofList body, rest)

def readLineString? : List Char → Option (String × List Char)
  | [] => none
  | c :: r =>
    if c = '"' ∨ c = '\'' then
      (readBody? c false .text r).map fun (body, rest) => (String.ofList body, rest)
    else none

def readString? : List Char → Option (String × List Char)
  | c :: d :: e :: r =>
    if (c = '"' ∨ c = '\'') ∧ d = c ∧ e = c then readBlock? c r
    else readLineString? (c :: d :: e :: r)
  | cs => readLineString? cs

/-!
## Keys of TOML

A key is one part or several with points between. A part is bare or a string on one line.
-/

def skipSpaces (cs : List Char) : List Char := cs.dropWhile fun c => c = ' ' || c = '\t'

/-- Tells the characters of a key without quotation marks. -/
def isBareKeyChar (c : Char) : Bool := c.isAlphanum || c = '-' || c = '_'

def readKeyPart? (cs : List Char) : Option (String × List Char) :=
  let bare := cs.takeWhile isBareKeyChar
  if bare.isEmpty then readLineString? cs
  else some (String.ofList bare, cs.dropWhile isBareKeyChar)

/-- The parts of a key with points between, and the spaces after it, up to `bound` parts. -/
def readKeyUpTo? : (bound : Nat) → List Char → Option (List String × List Char)
  | 0, _ => none
  | bound + 1, cs => do
    let (part, rest) ← readKeyPart? cs
    match skipSpaces rest with
    | '.' :: r => do
      let (parts, rest) ← readKeyUpTo? bound (skipSpaces r)
      return (part :: parts, rest)
    | rest => return ([part], rest)

def readKey? (cs : List Char) : Option (List String × List Char) :=
  readKeyUpTo? (cs.length + 1) cs

end Dissection.Toml
