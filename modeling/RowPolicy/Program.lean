import RowPolicy.CommandLine.Help
import RowPolicy.CommandLine.Parser
import RowPolicy.Settings.EnvironmentFile
import RowPolicy.Settings.Loading

/-!
# Runs of the tool

A run reads the environment file, the command line and the settings, in this order, and then
carries out its task. It ends with an exit code, a text on the standard output and a text on the
error output.
-/

namespace RowPolicy

structure Outcome where
  code : UInt32
  output : String := ""
  errors : String := ""
deriving DecidableEq

namespace Outcome

def inLines (texts : List String) : String := String.join (texts.map (· ++ "\n"))

def done (output : String) : Outcome := { code := 0, output }

def failed (message : String) (details : List String) : Outcome :=
  { code := 1, errors := inLines (details ++ ["Error: " ++ message]) }

def refused : Outcome :=
  { code := 2, errors := inLines ["error: the command line is not understood, see --help"] }

def aborted : Outcome :=
  { code := 101, errors := inLines ["the environment or the logs cannot be set up"] }

end Outcome

namespace Settings

def logDirectory? (settings : Settings) : Option String :=
  match LogOutput.parse (some settings.logging.output) with
  | .console => none
  | .file | .both => some settings.logging.directory

/-- Whether logging can learn its settings: variables hold no null characters. -/
def canLog (settings : Settings) : Bool :=
  settings.loggingEnvironment.all fun entry => !entry.2.toList.contains '\x00'

end Settings

namespace Program

open CommandLine (Task Meaning Invocation)

def environmentPath : String := ".env"

def firstPaths (arguments : List String) : List String :=
  environmentPath ::
    match CommandLine.parse arguments with
    | .invocation invocation => [invocation.configPath]
    | _ => []

def environment? (disk : Disk) (environment : Environment) : Option Environment :=
  match disk.find environmentPath with
  | .file content => EnvironmentFile.extend? environment content
  | _ => some environment

def mentioned (disk : Disk) : List String :=
  match disk.find environmentPath with
  | .file content => EnvironmentFile.mentioned content
  | _ => []

def settingsFor (disk : Disk) (environment : Environment) (invocation : Invocation) :
    Except SettingsError Settings :=
  (Settings.loadOrDefault disk environment invocation.configPath).map fun settings =>
    match invocation.schemas with
    | none => settings
    | some directory => { settings with schemas := { settings.schemas with directory } }

/-- The settings and the task of a run, unless it ends before they are known. -/
def begin (disk : Disk) (environment : Environment) (arguments : List String) :
    Except Outcome (Settings × Task) :=
  match environment? disk environment with
  | none => .error .aborted
  | some environment =>
    match CommandLine.parse arguments with
    | .help topic => .error (.done (CommandLine.helpText topic))
    | .version => .error (.done CommandLine.versionText)
    | .refused => .error .refused
    | .invocation invocation =>
      match settingsFor disk environment invocation with
      | .error error => .error (.failed error.message [])
      | .ok settings => if settings.canLog then .ok (settings, invocation.task) else .error .aborted

def paths (settings : Settings) (command : Command) : List String :=
  settings.schemas.directory :: (command.arguments.filterMap argumentPath?)

/-- The seconds between two looks at the schemas, of which there is at least one. -/
def pause (settings : Settings) (seconds : Option UInt64) : UInt64 :=
  max 1 (seconds.getD settings.schemas.pollSeconds)

def finish (settings : Settings) (disk : Disk) (command : Command) : Outcome :=
  match command.run settings disk with
  | .ok text => .done text
  | .error error => .failed error.message error.details

/-- The folder after logs have been set up, unless something is in the way of their directory.
Directories outside of the folder do not matter to it. -/
def withLogs? (folder : Folder) (directory : String) : Option Folder :=
  if directory.toList.head? = some '/' ∨ (Path.parts directory).contains ".." then some folder
  else folder.makeUnlessBlocked? (Path.parts directory)

/-- A whole run whose working directory is a folder; watching never ends. -/
def runIn (folder : Folder) (environment : Environment) (arguments : List String) :
    Option Outcome :=
  match begin folder.disk environment arguments with
  | .error outcome => some outcome
  | .ok (settings, task) =>
    let prepared := match settings.logDirectory? with
      | none => some folder
      | some directory => withLogs? folder directory
    match prepared, task with
    | none, _ => some .aborted
    | some _, .watch _ => none
    | some folder, .answer command => some (finish settings folder.disk command)

end Program

end RowPolicy
