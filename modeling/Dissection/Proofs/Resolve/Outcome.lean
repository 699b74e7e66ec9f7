import Dissection.Invocation
import Dissection.Proofs.Config.Faults
import Dissection.Proofs.Json.Printer
import Dissection.Proofs.Toggling
import Dissection.Proofs.Toml.LongNumber
import Dissection.Proofs.Value.Display
import Dissection.Resolve

/-!
# The outcome of resolving

Every diagnostic is followed by exit code 1 and stands in the error output as it was reported, and
nothing else does. Where nothing is reported there is a page of help, a document, or a misuse of the
command line. Only a diagnostic that would quote a number past the decimal limit stops the program.
-/

namespace Dissection

/-- What is reported while switches are handled in order, up to the first that is refused. -/
def Session.reports (host : Host) : List (Switch × Option String) → Session → List Line
  | [], _ => []
  | (w, argument) :: rest, s =>
    (s.handleCode host (.string w.code) argument).lines ++
      match s.handleCode host (.string w.code) argument with
      | ⟨after, .accepted⟩ => reports host rest after
      | _ => []

private theorem Session.reports_eq (host : Host) (calls : List (Switch × Option String))
    (s : Session) :
    reports host calls s =
      match handleAll host calls s with
      | (_, none) => []
      | (_, some cause) => cause.diagnostic.lines := by
  induction calls generalizing s with
  | nil => rfl
  | cons call calls ih =>
    obtain ⟨w, argument⟩ := call
    rw [reports, handleAll, handleCode_code, handle_eq]
    cases w.effect host (argument.getD "") with
    | ok f => exact ih (f s)
    | error cause => exact List.append_nil _

theorem Diagnostic.lines_ne_nil (d : Diagnostic) : d.lines ≠ [] := List.cons_ne_nil _ _

theorem Toggled.lines_eq_nil_iff {σ : Type} (t : Toggled σ) : t.lines = [] ↔ t.success = true := by
  simp [lines, success]

private theorem CommandLine.Ending.lines_verdict (e : Ending) : e.verdict.lines = [] := by
  rcases e with ⟨_ | ⟨token, strays⟩⟩ | _ | m <;> rfl

private theorem CommandLine.reports_ofTokens (host : Host) (tokens : List String) (s : Session) :
    Session.reports host (Reading.ofTokens tokens).switches s = (scan host tokens s).verdict.lines := by
  rw [Session.reports_eq, scan, Reading.run]
  obtain ⟨after, refusal⟩ := Session.handleAll host (Reading.ofTokens tokens).switches s
  cases refusal with
  | none => exact (Ending.lines_verdict _).symm
  | some cause => rfl

open CommandLine

/-- What the phases of resolving report: why the configuration is at fault, why a switch is refused,
and which names are not known once all switches are accepted. -/
def reported (keytabs : Bool) (config : Table) (commandLine : List String) : List Line :=
  match Config.arguments (Config.optionSection config) with
  | .error fault => Diagnostic.lines ⟨fault.message, []⟩
  | .ok tokens =>
    let host := Host.standard keytabs
    let all := tokens ++ commandLine
    Session.reports host (Reading.ofTokens all).switches {} ++
      if (scan host all {}).verdict = .accepted then
        ((Config.registry (Config.registrySection config)).apply
          (scan host all {}).session.options).lines
      else []

/-- The document of the session that is left once all switches are accepted, and of the registry in
which its names are switched. -/
def settledDocument? (keytabs : Bool) (config : Table) (commandLine : List String) : Option Json :=
  match Config.arguments (Config.optionSection config) with
  | .error _ => none
  | .ok tokens =>
    let scanned := scan (.standard keytabs) (tokens ++ commandLine) {}
    if scanned.verdict = .accepted then
      some (document scanned.session
        ((Config.registry (Config.registrySection config)).apply scanned.session.options).state)
    else none

/-- Whether an outcome is what resolving owes: its exit code tells whether anything was reported;
what was reported is all that a failure writes, and only a success writes to the output. -/
structure Outcome.Follows (o : Outcome) (keytabs : Bool) (config : Table)
    (commandLine : List String) : Prop where
  exitCode : o.exitCode = 0 ∨ o.exitCode = 1 ∨ o.exitCode = 2
  failed : o.exitCode = 1 ↔ reported keytabs config commandLine ≠ []
  failure : o.exitCode = 1 → o.output = "" ∧ o.errorOutput =
    String.join ((reported keytabs config commandLine).map (Line.written programName))
  misuse : o.exitCode = 2 → o.output = "" ∧ reported keytabs config commandLine = []
  success : o.exitCode = 0 → o.errorOutput = "" ∧ (o.output = helpPage programName ∨
    ∃ settled, settledDocument? keytabs config commandLine = some settled ∧
      o.output = settled.print ++ "\n")

namespace Outcome

variable {keytabs : Bool} {config : Table} {commandLine : List String}

theorem follows_failure {lines : List Line} (h : reported keytabs config commandLine = lines)
    (hne : lines ≠ []) : (Outcome.failure lines).Follows keytabs config commandLine := by
  have hreported : reported keytabs config commandLine ≠ [] := h ▸ hne
  exact
    { exitCode := .inr (.inl rfl)
      failed := iff_of_true rfl hreported
      failure := fun _ => ⟨rfl, by rw [h]; rfl⟩
      misuse := fun hcode => by cases hcode
      success := fun hcode => by cases hcode }

private theorem follows_misuse {errorOutput : String}
    (h : reported keytabs config commandLine = []) :
    Follows { exitCode := 2, errorOutput } keytabs config commandLine where
  exitCode := .inr (.inr rfl)
  failed := iff_of_false (fun hcode => by cases hcode) (fun hne => hne h)
  failure hcode := by cases hcode
  misuse _ := ⟨rfl, h⟩
  success hcode := by cases hcode

private theorem follows_success {output : String} (h : reported keytabs config commandLine = [])
    (houtput : output = helpPage programName ∨
      ∃ settled, settledDocument? keytabs config commandLine = some settled ∧
        output = settled.print ++ "\n") :
    Follows { output } keytabs config commandLine where
  exitCode := .inl rfl
  failed := iff_of_false (fun hcode => by cases hcode) (fun hne => hne h)
  failure hcode := by cases hcode
  misuse hcode := by cases hcode
  success _ := ⟨rfl, houtput⟩

end Outcome

theorem runOptions_follows (keytabs : Bool) {config : Table} {tokens : List String}
    (h : Config.arguments (Config.optionSection config) = .ok tokens) (commandLine : List String) :
    (runOptions keytabs (tokens ++ commandLine)
      (Config.registry (Config.registrySection config))).Follows keytabs config commandLine := by
  have hreported := reports_ofTokens (.standard keytabs) (tokens ++ commandLine) {}
  rw [runOptions]
  cases hverdict : (scan (.standard keytabs) (tokens ++ commandLine) {}).verdict with
  | accepted =>
    rw [conclude]
    simp only [Verdict.outcome?]
    split
    · rename_i hsuccess
      refine Outcome.follows_success ?_ (.inr ⟨_, ?_, Json.withoutControl_print _⟩)
      · simp [reported, h, hreported, hverdict, Verdict.lines,
          (Toggled.lines_eq_nil_iff _).mpr hsuccess]
      · simp [settledDocument?, h, hverdict]
    · rename_i hfailed
      refine Outcome.follows_failure ?_ fun hnil => hfailed ((Toggled.lines_eq_nil_iff _).mp hnil)
      simp [reported, h, hreported, hverdict, Verdict.lines]
  | refused cause =>
    refine Outcome.follows_failure ?_ cause.diagnostic.lines_ne_nil
    simp [reported, h, hreported, hverdict, Verdict.lines]
  | help =>
    refine Outcome.follows_success ?_ (.inl rfl)
    simp [reported, h, hreported, hverdict, Verdict.lines]
  | misuse m =>
    refine Outcome.follows_misuse ?_
    simp [reported, h, hreported, hverdict, Verdict.lines]

private theorem ResolveRequest.run_of_tableOf (r : ResolveRequest) {content : Option ByteArray}
    {table : Table} (h : Config.tableOf content = .ok table) :
    r.run content = resolve r.keytabs table r.arguments := by
  rw [run, h]
  rfl

/-- The outcome of a request whose configuration describes a table is as it should be, unless the
configuration is at fault with a value that is not written. -/
theorem ResolveRequest.run_follows (r : ResolveRequest) {content : Option ByteArray} {table : Table}
    (h : Config.tableOf content = .ok table) :
    (∃ fault, Config.arguments (Config.optionSection table) = .error fault ∧
      fault.value.isWritten = false ∧ r.run content = .error .numberNotWritten) ∨
    ∃ o, r.run content = .ok o ∧ o.Follows r.keytabs table r.arguments := by
  rw [r.run_of_tableOf h, resolve]
  cases harguments : Config.arguments (Config.optionSection table) with
  | ok tokens => exact .inr ⟨_, rfl, runOptions_follows r.keytabs harguments r.arguments⟩
  | error fault =>
    -- the wording of a fault quotes its value, and only there a number may be too long
    simp only [Config.Fault.diagnose]
    cases hwritten : fault.value.isWritten with
    | false => exact .inl ⟨fault, rfl, hwritten, rfl⟩
    | true =>
      refine .inr ⟨_, rfl, Outcome.follows_failure ?_ (Diagnostic.lines_ne_nil ⟨fault.message, []⟩)⟩
      simp [reported, harguments]

/-- A number where a string belongs is reported, and nothing else is written. -/
theorem ResolveRequest.run_follows_number :
    let content := "[dissect]\ntime_stamp = 0x5".toByteArray
    let table : Table := [("dissect", .table [("time_stamp", .int 5)])]
    Config.tableOf (some content) = .ok table ∧
      ∃ o, run { arguments := ["-Lt", "r"] } (some content) = .ok o ∧
        o.Follows false table ["-Lt", "r"] ∧ o.exitCode = 1 ∧ o.output = "" ∧
        o.errorOutput = "dissectopt: [dissect] time_stamp must be a string, got 5\n" := by
  intro content table
  have htext : "[dissect]\ntime_stamp = 0x5" =
      "[dissect]\ntime_stamp = 0x" ++ String.ofList ['5'] := by
    decide +kernel
  have htable : Config.tableOf (some content) = .ok table := by
    have h := Config.tableOf_hexadecimal (c := '5') (r := []) (List.forall_mem_singleton.mpr rfl)
    rw [← htext] at h
    exact h
  have hfault : Config.arguments (Config.optionSection table) =
      .error (.notString "time_stamp" (.int 5)) := rfl
  have hmessage : (Config.Fault.notString "time_stamp" (.int 5)).message =
      "[dissect] time_stamp must be a string, got 5" := by
    decide +kernel
  have hreported : reported false table ["-Lt", "r"] =
      [.error "[dissect] time_stamp must be a string, got 5"] := by
    simp only [reported, hfault, hmessage]
    rfl
  refine ⟨htable, ?_⟩
  rcases run_follows { arguments := ["-Lt", "r"] } htable with ⟨fault, h, hlong, _⟩ | ⟨o, hrun, ho⟩
  · obtain rfl := Except.error.inj (hfault.symm.trans h)
    exact absurd hlong (by decide +kernel)
  · have hcode : o.exitCode = 1 := ho.failed.mpr (by rw [hreported]; exact List.cons_ne_nil _ _)
    obtain ⟨houtput, herror⟩ := ho.failure hcode
    rw [hreported] at herror
    exact ⟨o, hrun, ho, hcode, houtput, herror.trans (by decide)⟩

private theorem resolve_numberNotWritten {n : Int} (h : (Value.int n).isWritten = false)
    (keytabs : Bool)
    (commandLine : List String) :
    resolve keytabs [("dissect", .table [("time_stamp", .int n)])] commandLine =
      .error .numberNotWritten := by
  have hfault : Config.arguments (Config.optionSection
      [("dissect", .table [("time_stamp", .int n)])]) = .error (.notString "time_stamp" (.int n)) :=
    rfl
  rw [resolve, hfault]
  simp [Config.Fault.diagnose, Config.Fault.value, h, Except.map]

/-- A number past the decimal limit where a string belongs stops the program, though its
configuration describes a table. -/
theorem ResolveRequest.run_numberNotWritten :
    let content :=
      ("[dissect]\ntime_stamp = 0x" ++ String.ofList ('1' :: List.replicate 3572 '0')).toByteArray
    Command.ofArguments ["resolve"] = .ok (.resolve {}) ∧
      (∃ table, Config.tableOf (some content) = .ok table) ∧
      run {} (some content) = .error .numberNotWritten := by
  intro content
  have hdigits : ∀ d ∈ '1' :: List.replicate 3572 '0', Toml.isDigitOf 16 d = true := by
    intro d hd
    rcases List.mem_cons.mp hd with rfl | hzero
    · decide
    · rw [List.eq_of_mem_replicate hzero]
      decide
  have htable := Config.tableOf_hexadecimal hdigits
  have hlong : (Value.int (Toml.valueOf 16 ('1' :: List.replicate 3572 '0'))).isWritten = false := by
    rw [Toml.valueOf_zeros]
    decide +kernel
  refine ⟨by decide +kernel, ⟨_, htable⟩, ?_⟩
  rw [run_of_tableOf {} htable]
  exact resolve_numberNotWritten hlong false []

end Dissection

/-!
## Refused configurations

A configuration whose section of dissection options is refused is answered with one line. It names
the key and quotes the value, and whatever is in the value the line is printable, so that it goes to
any place as it is and nothing in it begins another line or controls a terminal.
-/

namespace Dissection

namespace Config

private theorem printable_checkedKeys : ∀ key ∈ checkedKeys, Text.Printable key := by decide

private theorem FirstAtFault.mem_checkedKeys {t : Table} {key : String} {v : Value}
    (h : FirstAtFault t key v) : key ∈ checkedKeys := by
  obtain ⟨earlier, later, hkeys, -⟩ := h.first
  rw [hkeys]
  exact List.mem_append_right _ List.mem_cons_self

private theorem printable_complaint {key : String} (h : Text.Printable key) (v : Value) :
    Text.Printable (complaint key v) := by
  have hsection : Text.Printable "[dissect] " := by decide
  have hstring : Text.Printable " must be a string" := by decide
  have hlist : Text.Printable (if key = "decode_as" then " or a list" else "") := by
    split <;> decide
  have hgot : Text.Printable ", got " := by decide
  exact ((((hsection.append h).append hstring).append hlist).append hgot).append v.printable_display

end Config

private theorem Text.Printable.escapeChar_not_mem {s : String} (h : Printable s) :
    escapeChar ∉ s.toList :=
  fun hescape => absurd (h _ hescape) (by decide)

/-- A section that is refused is answered with one line: the name of the program, and what is said of
the first value at fault. The line is printable, so no control, no separator of lines and no format
character is in it, and taking terminal control sequences away leaves it as it is. -/
theorem resolve_refused_line {t : Table} {d : Diagnostic} (h : Config.Refused t d) :
    let line := programName ++ ": " ++ d.message
    (∃ key v, Config.FirstAtFault t key v ∧ d.message = Config.complaint key v) ∧
    (∀ c ∈ line.toList, Text.isPrintable c = true ∧ ¬ Text.Disturbs c) ∧
    Text.withoutControl (line ++ "\n") = line ++ "\n" ∧
    d.lines.map (Line.written programName) = [line ++ "\n"] ∧
    ∀ (keytabs : Bool) (config : Table) (commandLine : List String),
      Config.optionSection config = t →
      resolve keytabs config commandLine = .ok { exitCode := 1, errorOutput := line ++ "\n" } := by
  intro line
  obtain ⟨fault, hfault, hdiagnose⟩ := h
  obtain ⟨key, v, hfirst, rfl⟩ := Config.arguments_eq_error_iff.mp hfault
  obtain ⟨-, rfl⟩ := Config.diagnose_faultOf_eq_ok_iff.mp hdiagnose
  have hprogram : Text.Printable (programName ++ ": ") := by decide
  have hkey : Text.Printable key := Config.printable_checkedKeys key hfirst.mem_checkedKeys
  have hline : Text.Printable line := hprogram.append (Config.printable_complaint hkey v)
  have hterminal : Text.withoutControl (line ++ "\n") = line ++ "\n" :=
    Text.withoutControl_line hline.escapeChar_not_mem
  have hwritten : (Diagnostic.lines ⟨Config.complaint key v, []⟩).map (Line.written programName) =
      [line ++ "\n"] := congrArg (fun text => [text]) hterminal
  refine ⟨⟨key, v, hfirst, rfl⟩, fun c hc => ?_, hterminal, hwritten, ?_⟩
  · exact ⟨hline c hc, Text.not_disturbs_of_isPrintable (hline c hc)⟩
  · intro keytabs config commandLine hsection
    simp only [resolve, hsection, hfault, hdiagnose, Except.map, Outcome.failure, hwritten]
    rfl

/-- A key with a line feed and a control sequence in it, a text with a separator of lines, a mark that
turns the direction of writing and an apostrophe, a point of time and a number. -/
theorem resolve_refused_line_nested :
    let entries : Table := [("k\n\x1b[2J", .string "it's \u2028é\u202e")]
    let instant : DateTime := ⟨⟨1979, 5, 27⟩, ⟨7, 32, 0, 5⟩, some (-480)⟩
    let v : Value := .list [.table entries, .dateTime instant, .float (.finite true 1 (-1074))]
    let t : Table := [("keytab", .bool true), ("time_stamp", v)]
    let d : Diagnostic := ⟨"[dissect] time_stamp must be a string, got " ++
      "[\x7b'k\\n\\x1b[2J': \"it's \\u2028é\\u202e\"\x7d, " ++
      "datetime.datetime(1979, 5, 27, 7, 32, 0, 5, " ++
      "tzinfo=datetime.timezone(datetime.timedelta(days=-1, seconds=57600))), -5e-324]", []⟩
    let line := programName ++ ": " ++ d.message
    Config.Refused t d ∧ (∀ c ∈ line.toList, Text.isPrintable c = true ∧ ¬ Text.Disturbs c) ∧
      Text.withoutControl (line ++ "\n") = line ++ "\n" ∧
      resolve true [("dissect", .table t)] ["-t", "ad"] =
        .ok { exitCode := 1, errorOutput := line ++ "\n" } := by
  intro entries instant v t d line
  have hfault : Config.arguments t = .error (Config.faultOf "time_stamp" v) := rfl
  have hmessage : d = ⟨Config.complaint "time_stamp" v, []⟩ := by decide +kernel
  have hrefused : Config.Refused t d :=
    ⟨_, hfault, Config.diagnose_faultOf_eq_ok_iff.mpr ⟨by decide +kernel, hmessage⟩⟩
  obtain ⟨-, hprintable, hterminal, -, hresolve⟩ := resolve_refused_line hrefused
  exact ⟨hrefused, hprintable, hterminal, hresolve true _ _ rfl⟩

end Dissection
