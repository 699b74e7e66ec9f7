/-!
# Switches

The ten dissection options, with their codes, their spelling on the command line, and their help.
-/

namespace Dissection

inductive Switch where
  | decodeAs
  | keytab
  | noNameResolution
  | nameResolution
  | timeStamp
  | secondsType
  | disableProtocol
  | enableProtocol
  | enableHeuristic
  | disableHeuristic
  deriving DecidableEq, Repr

namespace Switch

def all : List Switch :=
  [.decodeAs, .keytab, .noNameResolution, .nameResolution, .timeStamp, .secondsType,
    .disableProtocol, .enableProtocol, .enableHeuristic, .disableHeuristic]

/-- The code of a switch: its letter or its long name. -/
def code : Switch → String
  | .decodeAs => "d"
  | .keytab => "K"
  | .noNameResolution => "n"
  | .nameResolution => "N"
  | .timeStamp => "t"
  | .secondsType => "u"
  | .disableProtocol => "disable-protocol"
  | .enableProtocol => "enable-protocol"
  | .enableHeuristic => "enable-heuristic"
  | .disableHeuristic => "disable-heuristic"

def ofCode? (s : String) : Option Switch := all.find? fun w => w.code == s

def flag : Switch → String
  | .decodeAs => "-d"
  | .keytab => "-K"
  | .noNameResolution => "-n"
  | .nameResolution => "-N"
  | .timeStamp => "-t"
  | .secondsType => "-u"
  | .disableProtocol => "--disable-protocol"
  | .enableProtocol => "--enable-protocol"
  | .enableHeuristic => "--enable-heuristic"
  | .disableHeuristic => "--disable-heuristic"

/-- The word for the value of a switch in the help; only `-n` takes none. -/
def valueWord? : Switch → Option String
  | .decodeAs => some "RULE"
  | .keytab => some "KEYTAB"
  | .noNameResolution => none
  | .nameResolution => some "FLAGS"
  | .timeStamp => some "SPEC"
  | .secondsType => some "s|hms"
  | .disableProtocol | .enableProtocol | .enableHeuristic | .disableHeuristic => some "NAME"

def takesValue : Switch → Bool
  | .noNameResolution => false
  | _ => true

def help : Switch → String
  | .decodeAs => "decode-as rule <layer type>==<selector>,<protocol>"
  | .keytab => "Kerberos keytab file"
  | .noNameResolution => "disable all name resolution"
  | .nameResolution => "enable name resolution types (d, m, n, N, t, v)"
  | .timeStamp => "time stamp format and/or precision, e.g. ad.6"
  | .secondsType => "seconds display type"
  | .disableProtocol => "disable dissection of a protocol"
  | .enableProtocol => "enable dissection of a protocol"
  | .enableHeuristic => "enable heuristic dissection of a protocol"
  | .disableHeuristic => "disable heuristic dissection of a protocol"

theorem ofCode?_code (w : Switch) : ofCode? w.code = some w := by cases w <;> rfl

theorem ofCode?_eq_some_iff {s : String} {w : Switch} : ofCode? s = some w ↔ s = w.code := by
  constructor
  · intro h
    have := List.find?_some h
    simp only [beq_iff_eq] at this
    exact this.symm
  · rintro rfl
    exact ofCode?_code w

end Switch

end Dissection
