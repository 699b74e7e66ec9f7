import Dissection.DecodeAs
import Dissection.Diagnostic
import Dissection.Failure
import Dissection.NameResolution
import Dissection.Switch
import Dissection.TimeStamp
import Dissection.Value

/-!
# Sessions

The options and settings that switches build up, one after the other.
-/

/-!
## Refusals

Why an option is refused.
-/

namespace Dissection

/-- The cause for which an option is refused. A host that keeps decode-as rules itself may refuse
one in its own words. -/
inductive Refusal where
  | timeStamp (text : String) (defect : TimeStamp.Defect)
  | secondsType (text : String)
  | nameLetter (c : Char)
  | decodeAs (text : String) (defect : DecodeAs.Defect)
  | decodeAsByHost (message : String) (details : List String)
  | keytab
  deriving DecidableEq, Repr

def Refusal.diagnostic : Refusal → Diagnostic
  | .timeStamp text defect => ⟨defect.message text, defect.details⟩
  | .secondsType text =>
    ⟨"Invalid seconds type \"" ++ text ++ "\"; it must be one of:", SecondsType.help⟩
  | .nameLetter c => ⟨NameResolution.badLetterMessage c, NameKind.help⟩
  | .decodeAs text defect => ⟨defect.message text, DecodeAs.help⟩
  | .decodeAsByHost message details => ⟨message, details⟩
  | .keytab => ⟨"-K specified, but Kerberos keytab file support isn't present", []⟩

/-- Options that wait for a later phase: the look of time stamps, and the names of protocols and
heuristic dissectors to switch, in the order in which they were given. -/
structure Options where
  timeFormat : TimeFormat := .notSet
  timePrecision : TimePrecision := .notSet
  disabledProtocols : List String := []
  enabledProtocols : List String := []
  enabledHeuristics : List String := []
  disabledHeuristics : List String := []
  deriving DecidableEq, Repr

/-- Settings that take effect at once. The keytabs are `none` before the first. -/
structure Settings where
  names : NameResolution := {}
  rules : List DecodeAs := []
  seconds : SecondsType := .plain
  keytabs : Option (List String) := none
  deriving DecidableEq, Repr

structure Session where
  options : Options := {}
  settings : Settings := {}
  deriving DecidableEq, Repr

/-- What the host of a session can do: whether it reads keytabs, and how it reads rules. -/
structure Host where
  keytabs : Bool
  decodeAs : String → Except Refusal DecodeAs

/-- The rules are read by their form alone. -/
def Host.standard (keytabs : Bool) : Host where
  keytabs := keytabs
  decodeAs text := (DecodeAs.read text).mapError (Refusal.decodeAs text)

/-- Takes over what an option argument says about time stamps. -/
def Options.withTimeStamp (o : Options) (t : TimeStamp) : Options :=
  { o with
    timeFormat := t.format.getD o.timeFormat
    timePrecision := t.precision.getD o.timePrecision }

def Settings.withKeytab (s : Settings) (path : String) : Settings :=
  { s with keytabs := some (s.keytabs.getD [] ++ [path]) }

def Settings.withRule (s : Settings) (rule : DecodeAs) : Settings :=
  { s with rules := s.rules ++ [rule] }

namespace Session

/-- Back to no options; the settings stay. -/
def reset (s : Session) : Session := { s with options := {} }

def mapOptions (s : Session) (f : Options → Options) : Session := { s with options := f s.options }

def mapSettings (s : Session) (f : Settings → Settings) : Session :=
  { s with settings := f s.settings }

def setName (s : Session) (k : NameKind) (on : Bool) : Session :=
  s.mapSettings fun t => { t with names := t.names.set k on }

end Session

/-- What changes the session as it goes and may be refused. A refusal takes nothing back. -/
abbrev Dispatch := ExceptT Refusal (StateM Session)

namespace Dispatch

/-- Goes on with what has been read, or is refused for what stood in the way. -/
def ofRead {ε α : Type} (cause : ε → Refusal) (x : Except ε α) : Dispatch α :=
  MonadExcept.ofExcept (x.mapError cause)

/-- Switches the kinds of name resolution one after the other. -/
def setNames (choice : NameKind → Bool) : Dispatch Unit :=
  NameKind.all.forM fun k => modify fun s => s.setName k (choice k)

/-- All letters are read before the first kind is switched. -/
def enableNames (text : String) : Dispatch Unit := do
  let names ← ofRead .nameLetter ((← get).settings.names.enable text)
  setNames names.get

def disableNames : Dispatch Unit := setNames fun _ => false

def addRule (host : Host) (text : String) : Dispatch Unit := do
  let rule ← ofRead id (host.decodeAs text)
  modify fun s => s.mapSettings (·.withRule rule)

def addKeytab (host : Host) (text : String) : Dispatch Unit := do
  unless host.keytabs do throw .keytab
  modify fun s => s.mapSettings (·.withKeytab text)

def setTimeStamp (text : String) : Dispatch Unit := do
  let stamp ← ofRead (.timeStamp text) (TimeStamp.read text)
  modify fun s => s.mapOptions (·.withTimeStamp stamp)

def setSecondsType (text : String) : Dispatch Unit := do
  let some seconds := SecondsType.ofWord? text | throw (.secondsType text)
  modify fun s => s.mapSettings fun t => { t with seconds }

end Dispatch

def Switch.dispatch (host : Host) (text : String) : Switch → Dispatch Unit
  | .decodeAs => Dispatch.addRule host text
  | .keytab => Dispatch.addKeytab host text
  | .noNameResolution => Dispatch.disableNames
  | .nameResolution => Dispatch.enableNames text
  | .timeStamp => Dispatch.setTimeStamp text
  | .secondsType => Dispatch.setSecondsType text
  | .disableProtocol =>
    modify fun s => s.mapOptions fun o =>
      { o with disabledProtocols := o.disabledProtocols ++ [text] }
  | .enableProtocol =>
    modify fun s => s.mapOptions fun o =>
      { o with enabledProtocols := o.enabledProtocols ++ [text] }
  | .enableHeuristic =>
    modify fun s => s.mapOptions fun o =>
      { o with enabledHeuristics := o.enabledHeuristics ++ [text] }
  | .disableHeuristic =>
    modify fun s => s.mapOptions fun o =>
      { o with disabledHeuristics := o.disabledHeuristics ++ [text] }

namespace Session

/-- The session that a dispatch leaves, and why it is refused if it is. -/
def after (s : Session) (d : Dispatch Unit) : Session × Option Refusal :=
  match d.run s with
  | (.ok (), after) => (after, none)
  | (.error cause, after) => (after, some cause)

/-- Handles a switch. An absent argument counts as empty. -/
def handle (host : Host) (w : Switch) (argument : Option String) (s : Session) :
    Session × Option Refusal :=
  s.after (w.dispatch host (argument.getD ""))

/-- Handles switches in order up to the first that is refused. -/
def handleAll (host : Host) : List (Switch × Option String) → Session → Session × Option Refusal
  | [], s => (s, none)
  | (w, argument) :: r, s =>
    match s.handle host w argument with
    | (after, none) => handleAll host r after
    | (after, some cause) => (after, some cause)

theorem handleAll_append (host : Host) (xs ys : List (Switch × Option String)) (s : Session) :
    handleAll host (xs ++ ys) s =
      match handleAll host xs s with
      | (after, none) => handleAll host ys after
      | (after, some cause) => (after, some cause) := by
  induction xs generalizing s with
  | nil => rfl
  | cons x xs ih =>
    simp only [List.cons_append, handleAll]
    split
    · exact ih _
    · rfl

end Session

/-!
## Handling codes

A host names a switch by its code. A code that no switch has is a fault of the host, not of the
user, and is told apart from a refusal.
-/

/-- A place that should not have been reached: what is said of it, and the facts that describe how
it was, by name. -/
structure Unreachable where
  message : String
  facts : List (String × Value)

/-- Marks a place that should not be reached. The facts are quoted, of two for one name the later,
so one that holds a number past the decimal limit stops the program instead. -/
def Unreachable.mark (reason : String) (facts : List (String × Value)) :
    Except Failure Unreachable :=
  let sorted := Text.SortedMap.ofEntries facts
  let reason := if reason = "" then "never() marker reached" else reason
  if sorted = [] then .ok ⟨reason, []⟩
  else if sorted.all (·.2.isWritten) then
    .ok ⟨reason ++ enclosed " (" ")" (sorted.map fun f => f.1 ++ "=" ++ f.2.display), sorted⟩
  else .error .numberNotWritten

inductive Reply where
  | accepted
  | refused (cause : Refusal)
  | unreachable (place : Unreachable)
  | stopped (failure : Failure)

namespace Reply

def ofRefusal? : Option Refusal → Reply
  | none => .accepted
  | some cause => .refused cause

def ofMark : Except Failure Unreachable → Reply
  | .ok place => .unreachable place
  | .error failure => .stopped failure

def lines : Reply → List Line
  | .refused cause => cause.diagnostic.lines
  | _ => []

end Reply

/-- The session that the handling of a code leaves, and what comes of it. -/
structure Handling where
  session : Session
  reply : Reply

def Handling.lines (h : Handling) : List Line := h.reply.lines

def Switch.ofValue? : Value → Option Switch
  | .string s => Switch.ofCode? s
  | _ => none

/-- Handles the switch that a code names. -/
def Session.handleCode (host : Host) (code : Value) (argument : Option String) (s : Session) :
    Handling :=
  match Switch.ofValue? code with
  | some w =>
    match s.handle host w argument with
    | (after, refusal?) => ⟨after, .ofRefusal? refusal?⟩
  | none => ⟨s, .ofMark (Unreachable.mark "unhandled dissect option code" [("code", code)])⟩

end Dissection
