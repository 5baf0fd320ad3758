import PopulateQuery.CommandLine.Run

/-!
# The program

Gathers the environment, answers the call and prints the answer. All that is decided is decided in
`CommandLine.run`.
-/

namespace PopulateQuery.CommandLine

/-- What stands at a path of the system's files. -/
def stateOnDisk (path : String) : IO PathState := do
  try
    return .file (← IO.FS.readBinFile path)
  catch fault =>
    return match fault with
      | .noFileOrDirectory .. | .noSuchThing .. => .absent .notFound
      | .inappropriateType _ 21 _ => .directory
      | .inappropriateType .. => .absent .notADirectory
      | other => .absent (.stated (toString other))

/-- Whether styles are shown: as the variables say that force or forbid them, or else on a
terminal. -/
def showsStyles : IO Bool := do
  let isSet (name : String) : IO (Option Bool) := do
    return (← IO.getEnv name).map (· != "0")
  if (← isSet "CLICOLOR_FORCE") == some true then return true
  if (← isSet "NO_COLOR").isSome then return false
  if (← isSet "CLICOLOR") == some false then return false
  (← IO.getStdout).isTty

/-- The environment of a call: the paths that it may look at are looked at beforehand. -/
def environmentFor (arguments : List String) : IO Environment := do
  let environment : Environment := {
    files := fun _ => .absent .notFound
    optionsFile := ← IO.getEnv "MONGOQS_CONFIG"
    userDirectory :=
      Options.userDirectory (← IO.getEnv "XDG_CONFIG_HOME") (← IO.getEnv "HOME")
    logFilter := (← IO.getEnv "RUST_LOG").getD ""
    colours := ← showsStyles }
  let states ← (pathsInUse environment arguments).mapM fun path => do
    return (path, ← stateOnDisk path)
  return { environment with files := fun path => (states.lookup path).getD (.absent .notFound) }

end PopulateQuery.CommandLine

open PopulateQuery.CommandLine in
/-- Answers the call, with the exit code 2 for one that makes no sense. -/
def main (arguments : List String) : IO UInt32 := do
  match run (← environmentFor arguments) arguments with
  | .misused fault =>
    IO.eprintln ("error: " ++ fault.message ++ "\n\nFor more information, try '--help'.")
    return 2
  | .ended code output log =>
    IO.print output
    IO.eprint log
    return code.toUInt32
