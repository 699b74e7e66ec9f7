import Dissection.Switch
import Dissection.Text.Character
import Dissection.Text.Pieces
import Dissection.Text.Quoted

/-!
# Reading the command line

The switches that a command line asks for, in order, and how it ends. A token with a flag may hold a
cluster of one-letter flags, of which the last may take the rest of the token or the token after it
as its value. Tokens that belong to no flag are strays; they only count at the end.
-/

/-!
## Tokens of the command line

Every token is told apart by itself: it is the terminator, a flag with or without a text attached to
it, an argument, or an unknown option.
-/

namespace Dissection.CommandLine

/-- A flag of the command line: the two spellings of help, and the switches. -/
inductive Flag where
  | shortHelp
  | longHelp
  | switch (w : Switch)
  deriving DecidableEq, Repr

namespace Flag

def all : List Flag := .shortHelp :: .longHelp :: Switch.all.map .switch

def text : Flag → String
  | .shortHelp => "-h"
  | .longHelp => "--help"
  | .switch w => w.flag

def ofText? (cs : List Char) : Option Flag := all.find? fun f => f.text.toList == cs

def takesValue : Flag → Bool
  | .switch w => w.takesValue
  | _ => false

def name : Flag → String
  | .switch w => w.flag
  | _ => "-h/--help"

theorem ofText?_text (f : Flag) : ofText? f.text.toList = some f := by
  cases f with
  | switch w => cases w <;> decide +kernel
  | _ => decide +kernel

theorem text_of_ofText? {cs : List Char} {f : Flag} (h : ofText? cs = some f) :
    f.text.toList = cs := by
  have := List.find?_some h
  simpa using this

end Flag

inductive Token where
  | terminator
  | flag (f : Flag) (attached : Option (List Char))
  | argument
  | unknown
  deriving DecidableEq, Repr

def isDigits (cs : List Char) : Bool := !cs.isEmpty && cs.all Text.isDecimalDigit

/-- Tells what may follow the sign of a negative number: digits, or digits with a point before at
least one of them. One line feed at the end does not count. -/
def isMagnitude (cs : List Char) : Bool :=
  let cs := if cs.getLast? = some '\n' then cs.dropLast else cs
  isDigits cs || match Text.cutAt? '.' cs with
    | some (whole, fraction) => whole.all Text.isDecimalDigit && isDigits fraction
    | none => false

namespace Token

/-- The flag before the first `=`, with the text after it. -/
def atEquals? (cs : List Char) : Option Token :=
  match Text.cutAt? '=' cs with
  | some (front, attached) => (Flag.ofText? front).map fun f => .flag f (some attached)
  | none => none

def atLetter? : List Char → Option Token
  | hyphen :: letter :: attached =>
    (Flag.ofText? [hyphen, letter]).map fun f => .flag f (some attached)
  | _ => none

/-- What a token of two or more characters that begins with a hyphen is: a flag, whole or before an
equals sign or by its letter; else an argument if it is a negative number or holds a space. -/
def ofHyphened (cs : List Char) : Token :=
  match Flag.ofText? cs with
  | some f => .flag f none
  | none =>
    match atEquals? cs <|> atLetter? cs with
    | some token => token
    | none => if isMagnitude (cs.drop 1) || cs.contains ' ' then .argument else .unknown

/-- What a token is. One that does not begin with a hyphen, or is only that, is an argument. -/
def ofText (s : String) : Token :=
  match s.toList with
  | '-' :: c :: r => if c = '-' ∧ r = [] then .terminator else ofHyphened ('-' :: c :: r)
  | _ => .argument

end Token

inductive Misuse where
  | missingValue (w : Switch)
  | unexpectedValue (f : Flag) (text : String)
  | strays (tokens : List String)
  deriving DecidableEq, Repr

def Misuse.message : Misuse → String
  | .missingValue w => "argument " ++ w.flag ++ ": expected one argument"
  | .unexpectedValue f text =>
    "argument " ++ f.name ++ ": ignored explicit argument " ++ Text.quoted text
  | .strays tokens => "unrecognized arguments: " ++ String.intercalate " " tokens

inductive Step where
  | help
  | switch (w : Switch) (argument : Option String)
  deriving DecidableEq, Repr

/-- The flags of one token: all with what they need, or the last still in want of a value. -/
inductive Cluster where
  | complete (steps : List Step)
  | wanting (steps : List Step) (w : Switch)
  | misuse (m : Misuse)
  deriving DecidableEq, Repr

namespace Cluster

def after (step : Step) : Cluster → Cluster
  | .complete steps => .complete (step :: steps)
  | .wanting steps w => .wanting (step :: steps) w
  | .misuse m => .misuse m

/-- A value attached to its flag. Two hyphens alone leave the argument out. -/
def attachedValue (cs : List Char) : Option String :=
  if cs = ['-', '-'] then none else some (String.ofList cs)

def bareStep : Flag → Step
  | .switch w => .switch w none
  | _ => .help

/-- The flags from one on, where characters that follow it in the token are its value if it takes
one and further letters if not. -/
def ofLetters (f : Flag) : List Char → Cluster
  | [] =>
    match f with
    | .switch w => if w.takesValue then .wanting [] w else .complete [.switch w none]
    | _ => .complete [.help]
  | c :: r =>
    match f, f.takesValue with
    | .switch w, true => .complete [.switch w (attachedValue (c :: r))]
    | _, _ =>
      match Flag.ofText? ['-', c] with
      | some g => (ofLetters g r).after (bareStep f)
      | none => .misuse (.unexpectedValue f (String.ofList (c :: r)))

def ofFlag (f : Flag) : (attached : Option (List Char)) → Cluster
  | none => ofLetters f []
  | some attached =>
    match f with
    | .switch w =>
      if w.takesValue then .complete [.switch w (attachedValue attached)]
      else if attached = [] then .misuse (.unexpectedValue f "")
      else ofLetters f attached
    | .shortHelp =>
      if attached = [] then .misuse (.unexpectedValue f "") else ofLetters f attached
    | .longHelp => .misuse (.unexpectedValue f (String.ofList attached))

end Cluster

/-- How a command line ends if no switch is refused. -/
inductive Ending where
  | finished (strays : List String)
  | help
  | misuse (m : Misuse)
  deriving DecidableEq, Repr

/-- The switches of a command line with their arguments, and its ending. -/
structure Reading where
  switches : List (Switch × Option String)
  ending : Ending
  deriving DecidableEq, Repr

namespace Reading

def stop (ending : Ending) : Reading := ⟨[], ending⟩

def withStray (token : String) (rest : Reading) : Reading :=
  { rest with
    ending := match rest.ending with
      | .finished strays => .finished (token :: strays)
      | ending => ending }

/-- Steps before what is read from the rest. With the wish for help nothing else counts. -/
def withSteps : List Step → Reading → Reading
  | [], rest => rest
  | .help :: _, _ => stop .help
  | .switch w argument :: steps, rest =>
    let rest := withSteps steps rest
    { rest with switches := (w, argument) :: rest.switches }

def ofTokens : List String → Reading
  | [] => stop (.finished [])
  | token :: rest =>
    match Token.ofText token with
    | .terminator => stop (.finished (token :: rest))
    | .argument | .unknown => withStray token (ofTokens rest)
    | .flag f attached =>
      match Cluster.ofFlag f attached with
      | .complete steps => withSteps steps (ofTokens rest)
      | .misuse m => stop (.misuse m)
      | .wanting steps w =>
        match rest with
        | value :: rest =>
          if Token.ofText value = .argument then
            withSteps (steps ++ [.switch w (some value)]) (ofTokens rest)
          else stop (.misuse (.missingValue w))
        | [] => stop (.misuse (.missingValue w))

end Reading

end Dissection.CommandLine
