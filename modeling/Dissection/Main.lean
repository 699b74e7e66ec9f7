import Dissection.Invocation

/-!
# The program

Reads the arguments, the environment and the configuration, and writes the outcome.
-/

namespace Dissection

def readFile? (name : String) : IO (Option ByteArray) := do
  try
    return some (← IO.FS.readBinFile name)
  catch _ =>
    return none

def commandHelp : String :=
  "usage: " ++ programName ++
    " resolve [--root PATH] [--config PATH] [--keytab-support] -- OPTIONS\n" ++
    "       " ++ programName ++ " timestamp-formats\n"

def Outcome.write (o : Outcome) : IO UInt32 := do
  IO.print o.output
  IO.eprint o.errorOutput
  return o.exitCode.toUInt32

def Command.execute : Command → IO UInt32
  | .help => Outcome.write { output := commandHelp }
  | .timeStampFormats => Outcome.write { output := timeStampHelp }
  | .resolve request => do
    let file := request.configPath (← IO.getEnv Config.fileVariable)
    match request.run (← readFile? file.text) with
    | .ok outcome => outcome.write
    | .error failure => Outcome.write { exitCode := 1, errorOutput := failure.message ++ "\n" }

end Dissection

def main (arguments : List String) : IO UInt32 :=
  match Dissection.Command.ofArguments arguments with
  | .ok command => command.execute
  | .error fault =>
    Dissection.Outcome.write
      { exitCode := 2, errorOutput := Dissection.commandHelp ++ fault.message ++ "\n" }
