import Dissection.Calendar
import Dissection.Failure
import Dissection.Number.Binary64
import Dissection.Text.Quoted

/-!
# Values

The data of a configuration document: scalars, lists, and tables that keep the order of their keys.
-/

namespace Dissection

inductive Value where
  | null
  | bool (b : Bool)
  | int (n : Int)
  | float (x : Binary64)
  | string (s : String)
  | dateTime (d : DateTime)
  | date (d : Date)
  | time (t : Time)
  | list (items : List Value)
  | table (entries : List (String × Value))
  deriving Repr, BEq, Inhabited

/-- The keys of a table with their values, in the order in which they were written. -/
abbrev Table := List (String × Value)

namespace Table

def get? (t : Table) (key : String) : Option Value := List.lookup key t

/-- Sets the value of a key: in its place if it is there, at the end if not. -/
def set (key : String) (value : Value) : Table → Table
  | [] => [(key, value)]
  | (k, v) :: r => if k = key then (k, value) :: r else (k, v) :: set key value r

/-- The table of some entries: a key stands where it is first written and has its last value. -/
def ofEntries (entries : List (String × Value)) : Table :=
  entries.foldl (fun t e => set e.1 e.2 t) []

/-- The table under a key; empty if there is none or it is no table. -/
def subtable (t : Table) (name : String) : Table :=
  match t.get? name with
  | some (.table entries) => entries
  | _ => []

theorem get?_cons (k key : String) (v : Value) (t : Table) :
    get? ((k, v) :: t) key = if key = k then some v else get? t key := by
  by_cases h : key = k
  · simp [get?, h]
  · simp [get?, List.lookup_cons, h, beq_false_of_ne h]

theorem get?_set_self (key : String) (v : Value) (t : Table) :
    (set key v t).get? key = some v := by
  induction t with
  | nil => simp [set, get?_cons]
  | cons e r ih =>
    obtain ⟨k, w⟩ := e
    by_cases h : k = key
    · simp [set, h, get?_cons]
    · simp [set, h, get?_cons, Ne.symm h, ih]

theorem get?_set_of_ne {key other : String} (h : other ≠ key) (v : Value) (t : Table) :
    (set key v t).get? other = t.get? other := by
  induction t with
  | nil => simp [set, get?_cons, h]
  | cons e r ih =>
    obtain ⟨k, w⟩ := e
    by_cases hk : k = key
    · simp [set, hk, get?_cons, h]
    · simp [set, hk, get?_cons, ih]

end Table

end Dissection

/-!
## Sorted maps

Association lists with texts as keys in strictly increasing order by code point.
-/

namespace Dissection.Text.SortedMap

variable {β : Type}

def insert (key : String) (value : β) : List (String × β) → List (String × β)
  | [] => [(key, value)]
  | (k, v) :: r =>
    if key < k then (key, value) :: (k, v) :: r
    else if key = k then (key, value) :: r
    else (k, v) :: insert key value r

/-- The sorted map of some entries; of two for one key the later counts. -/
def ofEntries (entries : List (String × β)) : List (String × β) :=
  entries.foldl (fun m e => insert e.1 e.2 m) []

end Dissection.Text.SortedMap

/-!
## Values in diagnostics

The text of a value inside a diagnostic: strings and keys quoted, lists and tables in brackets and
braces, dates and times as the calls that would build them. A value that holds a whole number past
the decimal limit is not written.
-/

namespace Dissection

/-- Floating numbers are written positionally from 0.0001 up to sixteen digits before the point. -/
def floatRange : Binary64.Positional := ⟨-4, 15⟩

/-- The texts with commas between, inside an opening and a closing text. -/
def enclosed (first last : String) (parts : List String) : String :=
  first ++ String.intercalate ", " parts ++ last

def Date.display (d : Date) : String :=
  enclosed "datetime.date(" ")" [toString d.year, toString d.month, toString d.day]

/-- The parts of a time: microseconds only if there are some, seconds only if there are some of
either. -/
def Time.parts (t : Time) : List String :=
  [toString t.hour, toString t.minute] ++
    (if t.second = 0 ∧ t.microsecond = 0 then [] else [toString t.second]) ++
    (if t.microsecond = 0 then [] else [toString t.microsecond])

def Time.display (t : Time) : String := enclosed "datetime.time(" ")" t.parts

/-- The text of an offset: whole days, rounded down, and the seconds past them, zeros left out. -/
def displayOffset (minutes : Int) : String :=
  if minutes = 0 then "datetime.timezone.utc"
  else
    let days := Int.fdiv minutes 1440
    let seconds := 60 * Int.fmod minutes 1440
    enclosed "datetime.timezone(datetime.timedelta(" "))"
      ((if days = 0 then [] else ["days=" ++ toString days]) ++
        (if seconds = 0 then [] else ["seconds=" ++ toString seconds]))

def DateTime.display (d : DateTime) : String :=
  enclosed "datetime.datetime(" ")"
    ([toString d.date.year, toString d.date.month, toString d.date.day] ++ d.time.parts ++
      (d.offset.map fun minutes => "tzinfo=" ++ displayOffset minutes).toList)

namespace Value

mutual

def display : Value → String
  | .null => "None"
  | .bool b => if b then "True" else "False"
  | .int n => toString n
  | .float x => x.text floatRange
  | .string s => Text.quoted s
  | .dateTime d => d.display
  | .date d => d.display
  | .time t => t.display
  | .list items => enclosed "[" "]" (displayItems items)
  | .table entries => enclosed "\x7b" "\x7d" (displayEntries entries)

def displayItems : List Value → List String
  | [] => []
  | v :: r => v.display :: displayItems r

def displayEntries : List (String × Value) → List String
  | [] => []
  | (key, v) :: r => (Text.quoted key ++ ": " ++ v.display) :: displayEntries r

end

mutual

/-- Tells the values that are written: every whole number in them is within the decimal limit. -/
def isWritten : Value → Bool
  | .int n => DecimalLimit.allows n
  | .list items => areItemsWritten items
  | .table entries => areEntriesWritten entries
  | _ => true

def areItemsWritten : List Value → Bool
  | [] => true
  | v :: r => v.isWritten && areItemsWritten r

def areEntriesWritten : List (String × Value) → Bool
  | [] => true
  | (_, v) :: r => v.isWritten && areEntriesWritten r

end

end Value

end Dissection
