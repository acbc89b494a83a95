import DeviceConsole.CommandLine.Parser
import DeviceConsole.Run

/-!
The command line tool: the disk of the machine it runs on, and its standard streams.
-/
namespace DeviceConsole

/-- The number of a system fault, which some calls report negated. -/
def systemNumber (code : UInt32) : UInt32 :=
  if code < 0x80000000 then code else 0 - code

/-- The fault that the system reports, by its number where it has one of this library's. -/
def Fault.ofSystem : IO.Error → Fault
  | .noFileOrDirectory .. => .notFound
  | .alreadyExists .. => .alreadyExists
  | .inappropriateType _ code report =>
    match systemNumber code with
    | 20 => .notDirectory
    | 21 => .isDirectory
    | number => .other (report ++ " (os error " ++ toString number ++ ")")
  | .invalidArgument _ code report =>
    match systemNumber code with
    | 36 => .nameTooLong
    | 40 => .tooManyLinks
    | number => .other (report ++ " (os error " ++ toString number ++ ")")
  | .permissionDenied _ code report =>
    .other (report ++ " (os error " ++ toString (systemNumber code) ++ ")")
  | e => .other (toString e)

/-- An action with the fault that the system reports, if it does. -/
def attempt (action : IO α) : IO (Except Fault α) := do
  try pure (.ok (← action)) catch e => pure (.error (Fault.ofSystem e))

/-- The file system of the machine. A folder can be opened, but not read; a folder that is there
already need not be made. -/
def hostDisk : Disk IO where
  load path := do
    match ← attempt (IO.FS.readBinFile path) with
    | .ok bytes => pure (.ok (.whole bytes.toList))
    | .error .isDirectory => pure (.ok (.failing .isDirectory))
    | .error fault => pure (.error fault)
  makeFolders path := do
    match ← attempt (IO.FS.createDir path) with
    | .error .notFound | .error .alreadyExists => attempt (IO.FS.createDirAll path)
    | made => pure made
  save path content := attempt (IO.FS.writeFile path content)

/-- How the tool is called. -/
def usage : String :=
  "Usage: devmgt-report [-v] report --data FILE --out DIR [--events FILE] [--filter KEY=VALUE]\n" ++
  "         [--status VALUE] [--ownership VALUE] [--chart LABEL] [--config FILE]\n" ++
  "         [--status-rule retain|drop-truthy] [--offset N] [--limit N]\n" ++
  "       devmgt-report [-v] uninstall --uuid UUID [--scope device|user|role|group]\n" ++
  "         [--device-type TYPE] [--config FILE] TARGET...\n"

/-- Run the tool with the words of its command line. -/
def runTool (words : List String) : IO UInt32 := do
  match CommandLine.read words with
  | .error .versionAsked =>
    IO.print (Report.toolName ++ " " ++ Report.toolVersion ++ "\n")
    pure 0
  | .error .helpAsked =>
    IO.print usage
    pure 0
  | .error e =>
    IO.eprint usage
    pure e.exitCode
  | .ok invocation =>
    let outcome ← Run.command hostDisk invocation.command
    for warning in outcome.warnings do
      IO.eprintln ("WARN " ++ warning.message ++ ((warning.item?.map (" item=" ++ ·)).getD ""))
    IO.print outcome.printed
    IO.eprint outcome.complaint
    pure outcome.exitCode

end DeviceConsole

def main (words : List String) : IO UInt32 :=
  DeviceConsole.runTool words
