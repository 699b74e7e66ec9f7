/-!
# Diagnostics

What is reported to the user: an error, and lines that continue it.
-/

/-!
## Terminal control sequences

A control sequence is an escape character, an opening bracket, parameters and a final letter.
What is written to a place other than a terminal is written without them.
-/

namespace Dissection.Text

def escapeChar : Char := '\x1b'

/-- Tells the parameter characters of a control sequence. -/
def isParameter (c : Char) : Bool := c = ';' || c = '?' || ('0' ≤ c && c ≤ '9')

/-- The text without its control sequences, where `held` (last character first) has been read of a
sequence that may yet turn out to be none. -/
def withoutControlFrom (held : List Char) : List Char → List Char
  | [] => held.reverse
  | c :: r =>
    if c = escapeChar then held.reverse ++ withoutControlFrom [c] r
    else match held with
      | [] => c :: withoutControlFrom [] r
      | [_] =>
        if c = '[' then withoutControlFrom (c :: held) r
        else held.reverse ++ c :: withoutControlFrom [] r
      | _ =>
        if isParameter c then withoutControlFrom (c :: held) r
        else if c.isAlpha then withoutControlFrom [] r
        else held.reverse ++ c :: withoutControlFrom [] r

def withoutControl (s : String) : String := String.ofList (withoutControlFrom [] s.toList)

theorem withoutControlFrom_eq_self {cs : List Char} (h : escapeChar ∉ cs) :
    withoutControlFrom [] cs = cs := by
  induction cs with
  | nil => rfl
  | cons c r ih =>
    simp only [List.mem_cons, not_or] at h
    simp [withoutControlFrom, Ne.symm h.1, ih h.2]

theorem withoutControl_eq_self {s : String} (h : escapeChar ∉ s.toList) :
    withoutControl s = s := by
  simp [withoutControl, withoutControlFrom_eq_self h]

theorem withoutControl_line {s : String} (h : escapeChar ∉ s.toList) :
    withoutControl (s ++ "\n") = s ++ "\n" := by
  have hfeed : escapeChar ∉ "\n".toList := by decide
  apply withoutControl_eq_self
  rw [String.toList_append, List.mem_append, not_or]
  exact ⟨h, hfeed⟩

end Dissection.Text

namespace Dissection

/-- The name of the program, which stands in front of its errors. -/
def programName : String := "dissectopt"

/-- A line that has been reported: an error, or the continuation of one. -/
inductive Line where
  | error (text : String)
  | continuation (text : String)
  deriving DecidableEq, Repr

def Line.text : Line → String
  | .error text => text
  | .continuation text => text

/-- The line as it is written to the error output: an error after the name of the program, either
without terminal control sequences. -/
def Line.written (program : String) : Line → String
  | .error text => Text.withoutControl (program ++ ": " ++ text ++ "\n")
  | .continuation text => Text.withoutControl (text ++ "\n")

structure Diagnostic where
  message : String
  details : List String := []
  deriving DecidableEq, Repr

/-- A diagnostic is reported as an error and, if there are details, one continuation. -/
def Diagnostic.lines (d : Diagnostic) : List Line :=
  .error d.message ::
    (if d.details = [] then [] else [.continuation (String.intercalate "\n" d.details)])

end Dissection
