import RowPolicy.Program

/-!
# The tool

Reads what a run looks at, lets the run be computed, and prints how it ends.
-/

namespace RowPolicy

def look (path : String) : IO Found := do
  try
    return .file (← IO.FS.readBinFile path)
  catch _ =>
    try
      let entries ← (← IO.FS.realPath path).readDir
      let files ← entries.toList.filterM fun entry => do
        try return (← entry.path.metadata).type == .file
        catch _ => return false
      return .directory (files.map fun entry => entry.fileName)
    catch _ => return .nothing

/-- What there is at some paths, and at the schema files of those that are directories. -/
def gather (paths : List String) : IO Disk := do
  let found ← (paths.filter (· != "")).mapM fun path => return (path, ← look path)
  let inside := found.flatMap fun (path, found) =>
    match found with
    | .directory files => (schemaFiles files).map (Path.join path)
    | _ => []
  let more ← inside.mapM fun path => return (path, ← look path)
  return Disk.ofList (found ++ more)

def variablesNow (disk : Disk) : IO Environment := do
  let names := Variable.all.map Variable.name ++ Program.mentioned disk
  let set ← names.filterMapM fun name => do
    return (← IO.getEnv name).map fun text => (name, text)
  return Dict.ofList set

def report (outcome : Outcome) : IO UInt32 := do
  (← IO.getStdout).putStr outcome.output
  (← IO.getStderr).putStr outcome.errors
  return outcome.code

/-- Loads the schemas again and again, and tells of every change. -/
partial def watch (settings : Settings) (pause : UInt32) (registry : Registry) : IO UInt32 := do
  let directory := settings.schemas.directory
  let registry ← match registry.reloadFrom (← gather [directory]) settings.compiler directory with
    | .ok (registry, outcome) =>
      if outcome.changed then
        IO.eprintln ("policies published: generation " ++ toString outcome.generation ++ ", "
          ++ toString outcome.entities ++ " entities, " ++ outcome.fingerprint)
      pure registry
    | .error error =>
      for single in error.singles do
        IO.eprintln ("schema rejected: " ++ single.message)
      pure registry
  IO.sleep pause
  watch settings pause registry

/-- Sets the logs up; the answer tells whether that worked. -/
def prepareLogs (settings : Settings) : IO Bool := do
  match settings.logDirectory? with
  | none => return true
  | some directory =>
    try
      if directory != "" then IO.FS.createDirAll directory
      return true
    catch _ => return false

end RowPolicy

open RowPolicy in
def main (arguments : List String) : IO UInt32 := do
  let disk ← gather (Program.firstPaths arguments)
  match Program.begin disk (← variablesNow disk) arguments with
  | .error outcome => report outcome
  | .ok (settings, task) =>
    if !(← prepareLogs settings) then report .aborted
    else
      match task with
      | .answer command =>
        report (Program.finish settings (← gather (Program.paths settings command)) command)
      | .watch seconds =>
        let pause := Program.pause settings seconds
        watch settings (UInt32.ofNat (min (pause.toNat * 1000) 4294967295)) Registry.new
