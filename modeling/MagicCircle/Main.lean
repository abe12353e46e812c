import MagicCircle.Command.Run

/-!
# The program

Gathers what a run needs from the system and prints what comes of it.
-/

namespace MagicCircle.Program

open Command Files

/-- The system's number of an error, which may come with a minus sign, if it has one. -/
def errorNumber? : IO.Error → Option UInt32
  | .noFileOrDirectory _ n _ | .invalidArgument _ n _ | .inappropriateType _ n _
  | .permissionDenied _ n _ | .resourceExhausted _ n _ | .otherError n _ =>
    some (if n < 0x80000000 then n else 0 - n)
  | _ => none

/-- The fault that an error of reading a file stands for. -/
def fileFault (e : IO.Error) : FileFault :=
  match errorNumber? e with
  | some 2 => .missing
  | some 20 => .notAFolder
  | some 21 => .isAFolder
  | some 36 => .nameTooLong
  | _ => .other (toString e)

def readFile (path : String) : IO (Except FileFault ByteArray) := do
  if path.toList.contains '\x00' then return .error .nulInName
  try
    return .ok (← IO.FS.readBinFile path)
  catch e =>
    return .error (fileFault e)

/-- The values of the variables that a run looks at. -/
def readVariables : IO (List (String × String)) := do
  let names := [Settings.sideVariable, Settings.limitVariable, Settings.folderVariable,
    Invocation.descriptionVariable]
  names.filterMapM fun name => do
    return (← IO.getEnv name).map (name, ·)

/-- What reading standard input gives, if a run comes to look at it. -/
def readInput (invocation : Invocation) (valueOf? : String → Option String) :
    IO (Except FileFault ByteArray) := do
  match invocation with
  | .run o =>
    if needsInput o valueOf? then
      try
        return .ok (← (← IO.getStdin).readBinToEnd)
      catch e =>
        return .error (fileFault e)
    else return .ok .empty
  | _ => return .ok .empty

def tell (outcome : Outcome) : IO Unit := do
  IO.print (Text.ofLines outcome.output)
  IO.eprint (Text.ofLines outcome.errors)

def start (args : List String) : IO Outcome := do
  let values ← readVariables
  let valueOf? := fun name => values.lookup name
  let tools := Tools.standard
  let w : Surroundings := ⟨valueOf?, ← readInput (tools.invocation args valueOf?) valueOf?⟩
  let files ← (tools.paths args w).mapM fun path => do return (path, ← readFile path)
  return tools.run args w fun path => (files.lookup path).getD (.error .missing)

end MagicCircle.Program

def main (args : List String) : IO UInt32 := do
  let outcome ← MagicCircle.Program.start args
  MagicCircle.Program.tell outcome
  return outcome.exitCode.toUInt32
