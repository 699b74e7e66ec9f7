import Dissection.Resolve

/-!
# Invocations

The commands of the program and their own options. What the command that resolves does not know is
left to the dissection options.
-/

namespace Dissection

inductive InvocationFault where
  | missingCommand
  | unknownCommand (name : String)
  | unknownOption (token : String)
  | missingValue (option : String)
  | unexpectedValue (option : String)
  | unexpectedArgument (token : String)
  deriving DecidableEq, Repr

def InvocationFault.message : InvocationFault → String
  | .missingCommand => "Missing command."
  | .unknownCommand name => "No such command '" ++ name ++ "'."
  | .unknownOption token => "No such option: " ++ token
  | .missingValue option => "Option '" ++ option ++ "' requires an argument."
  | .unexpectedValue option => "Option '" ++ option ++ "' does not take a value."
  | .unexpectedArgument token => "Got unexpected extra argument (" ++ token ++ ")"

/-- What the command that resolves is asked: the root folder, the file of the configuration, whether
keytabs are read, and the dissection options. -/
structure ResolveRequest where
  root : String := "."
  config : Option String := none
  keytabs : Bool := false
  arguments : List String := []
  deriving DecidableEq, Repr

inductive Command where
  | help
  | resolve (request : ResolveRequest)
  | timeStampFormats
  deriving DecidableEq, Repr

/-- A token before the first equals sign, and what follows it. -/
def splitOption (token : String) : String × Option String :=
  match Text.cutAt? '=' token.toList with
  | some (name, value) => (String.ofList name, some (String.ofList value))
  | none => (token, none)

def ResolveRequest.withValue (name value : String) (r : ResolveRequest) : ResolveRequest :=
  if name = "--root" then { r with root := value } else { r with config := some value }

/-- Reads the options of the command that resolves up to the first two hyphens alone; the last of
several counts. The request is `none` if help is asked for. -/
def readResolve (asked : Option ResolveRequest) :
    List String → Except InvocationFault (Option ResolveRequest)
  | [] => .ok asked
  | token :: rest =>
    if token = "--" then
      .ok (asked.map fun r => { r with arguments := r.arguments ++ rest })
    else
      let (name, value) := splitOption token
      if name = "--root" ∨ name = "--config" then
        match value with
        | some value => readResolve (asked.map (·.withValue name value)) rest
        | none =>
          match rest with
          | value :: rest => readResolve (asked.map (·.withValue name value)) rest
          | [] => .error (.missingValue name)
      else if name = "--keytab-support" ∨ name = "--no-keytab-support" ∨ name = "--help" then
        if value.isSome then .error (.unexpectedValue name)
        else if name = "--help" then readResolve none rest
        else readResolve (asked.map fun r => { r with keytabs := name = "--keytab-support" }) rest
      else readResolve (asked.map fun r => { r with arguments := r.arguments ++ [token] }) rest

/-- Reads the options of the command that lists the formats, which takes none but help. -/
def readTimeStampFormats : List String → Except InvocationFault Command
  | [] => .ok .timeStampFormats
  | "--" :: [] => .ok .timeStampFormats
  | "--" :: token :: _ => .error (.unexpectedArgument token)
  | token :: rest =>
    if (splitOption token).1 = "--help" then
      if token = "--help" then (readTimeStampFormats rest).map fun _ => .help
      else .error (.unexpectedValue "--help")
    else if token.startsWith "-" ∧ token ≠ "-" then .error (.unknownOption token)
    else .error (.unexpectedArgument token)

def readCommand : List String → Except InvocationFault Command
  | [] => .error .missingCommand
  | name :: rest =>
    if name = "resolve" then
      (readResolve (some {}) rest).map fun asked => (asked.map Command.resolve).getD .help
    else if name = "timestamp-formats" then readTimeStampFormats rest
    else .error (.unknownCommand name)

/-- Reads an invocation. Before the command stand no options but help. -/
def Command.ofArguments : List String → Except InvocationFault Command
  | "--" :: rest => readCommand rest
  | token :: rest =>
    if token = "--help" then .ok .help
    else if token.startsWith "-" ∧ token ≠ "-" then .error (.unknownOption token)
    else readCommand (token :: rest)
  | [] => .error .missingCommand

/-- The list of the words for formats, precisions and forms of seconds. -/
def timeStampHelp : String :=
  String.join ((["Time stamp types (-t TYPE):"] ++ TimeFormat.help ++
    ["Time stamp precisions (-t .N or -t TYPE.N): N in " ++
      String.intercalate ", " (TimePrecision.words.map Prod.fst)] ++
    ["Seconds types (-u):"] ++ SecondsType.help).map (· ++ "\n"))

def ResolveRequest.configPath (r : ResolveRequest) (environment : Option String) : Config.Path :=
  Config.path r.root r.config environment

/-- The outcome of a request, given the content of its configuration. -/
def ResolveRequest.run (r : ResolveRequest) (content : Option ByteArray) :
    Except Failure Outcome :=
  Config.tableOf content >>= fun table => resolve r.keytabs table r.arguments

end Dissection
