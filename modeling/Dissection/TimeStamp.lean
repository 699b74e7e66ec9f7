import Dissection.Text.Pieces

/-!
# Time stamps

How the time of a packet is shown: its format, its precision, and the form of seconds. An option
argument names a format, a precision after a point, or both.
-/

namespace Dissection

/-- A format of time stamps; `notSet` leaves the choice to the default. -/
inductive TimeFormat where
  | notSet
  | relative
  | absolute
  | absoluteWithYmd
  | absoluteWithYdoy
  | delta
  | deltaDisplayed
  | epoch
  | utc
  | utcWithYmd
  | utcWithYdoy
  deriving DecidableEq, Repr

/-- A precision of time stamps; `notSet` leaves the choice to the default, which is `auto`. -/
inductive TimePrecision where
  | notSet
  | auto
  | seconds
  | deciseconds
  | centiseconds
  | milliseconds
  | microseconds
  | nanoseconds
  deriving DecidableEq, Repr

inductive SecondsType where
  | plain
  | hourMinuteSecond
  deriving DecidableEq, Repr

namespace TimeFormat

def name : TimeFormat → String
  | .notSet => "not_set"
  | .relative => "relative"
  | .absolute => "absolute"
  | .absoluteWithYmd => "absolute_with_ymd"
  | .absoluteWithYdoy => "absolute_with_ydoy"
  | .delta => "delta"
  | .deltaDisplayed => "delta_displayed"
  | .epoch => "epoch"
  | .utc => "utc"
  | .utcWithYmd => "utc_with_ymd"
  | .utcWithYdoy => "utc_with_ydoy"

/-- The formats by the word that names each in an option argument, in the order of the help. -/
def words : List (String × TimeFormat) :=
  [("a", .absolute), ("ad", .absoluteWithYmd), ("adoy", .absoluteWithYdoy), ("d", .delta),
    ("dd", .deltaDisplayed), ("e", .epoch), ("r", .relative), ("u", .utc), ("ud", .utcWithYmd),
    ("udoy", .utcWithYdoy)]

def help : List String :=
  ["\t\"a\"    for absolute",
    "\t\"ad\"   for absolute with YYYY-MM-DD date",
    "\t\"adoy\" for absolute with YYYY/DOY date",
    "\t\"d\"    for delta",
    "\t\"dd\"   for delta displayed",
    "\t\"e\"    for epoch",
    "\t\"r\"    for relative",
    "\t\"u\"    for absolute UTC",
    "\t\"ud\"   for absolute UTC with YYYY-MM-DD date",
    "\t\"udoy\" for absolute UTC with YYYY/DOY date"]

/-- The format that is shown: relative time if none is set. -/
def effective : TimeFormat → TimeFormat
  | .notSet => .relative
  | format => format

end TimeFormat

namespace TimePrecision

def name : TimePrecision → String
  | .notSet => "not_set"
  | .auto => "auto"
  | .seconds => "fixed_sec"
  | .deciseconds => "fixed_dsec"
  | .centiseconds => "fixed_csec"
  | .milliseconds => "fixed_msec"
  | .microseconds => "fixed_usec"
  | .nanoseconds => "fixed_nsec"

/-- The precisions by the number of decimals that names each in an option argument. -/
def words : List (String × TimePrecision) :=
  [("0", .seconds), ("1", .deciseconds), ("2", .centiseconds), ("3", .milliseconds),
    ("6", .microseconds), ("9", .nanoseconds)]

/-- The precision that is shown: the one of the capture if none is set. -/
def effective : TimePrecision → TimePrecision
  | .notSet => .auto
  | precision => precision

end TimePrecision

namespace SecondsType

def name : SecondsType → String
  | .plain => "default"
  | .hourMinuteSecond => "hour_min_sec"

/-- The forms by the word that names each in an option argument, in the order of the help. -/
def words : List (String × SecondsType) := [("s", .plain), ("hms", .hourMinuteSecond)]

def help : List String := ["\t\"s\"   for seconds", "\t\"hms\" for hours, minutes and seconds"]

def ofWord? (text : String) : Option SecondsType := words.lookup text

end SecondsType

/-- What an option argument says about time stamps; what it does not say stays as it is. -/
structure TimeStamp where
  format : Option TimeFormat := none
  precision : Option TimePrecision := none
  deriving DecidableEq, Repr

namespace TimeStamp

/-- What is wrong with an option argument about time stamps. -/
inductive Defect where
  | precision
  | format
  deriving DecidableEq, Repr

/-- Reads an option argument. The precision after the first point is judged before the format. -/
def read (text : String) : Except Defect TimeStamp :=
  match Text.cutAt? '.' text.toList with
  | none =>
    match TimeFormat.words.lookup text with
    | none => .error .format
    | some format => .ok { format }
  | some (before, after) =>
    match TimePrecision.words.lookup (String.ofList after) with
    | none => .error .precision
    | some precision =>
      if before = [] then .ok { precision }
      else match TimeFormat.words.lookup (String.ofList before) with
        | none => .error .format
        | some format => .ok { format, precision }

def Defect.message (text : String) : Defect → String
  | .precision =>
    "Invalid .N time stamp precision \"" ++ text ++ "\"; N must be 0, 1, 2, 3, 6 or 9"
  | .format => "Invalid time stamp type \"" ++ text ++ "\"; it must be one of:"

def Defect.details : Defect → List String
  | .precision => []
  | .format => TimeFormat.help

end TimeStamp

end Dissection
