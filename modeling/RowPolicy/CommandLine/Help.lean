import RowPolicy.CommandLine.Basic

/-!
# Overviews

The texts that explain the command line. Rows of an overview have two columns; the second one
starts two spaces after the longest entry of the first.
-/

namespace RowPolicy

namespace CommandLine

def toolName : String := "rls"

def versionText : String := toolName ++ " 0.1.0\n"

def rows (entries : List (String × String)) : String :=
  let width := (entries.map (·.1.length)).foldl max 0
  String.join (entries.map fun (left, right) => "  " ++ padded width left ++ "  " ++ right ++ "\n")

def valueName (parameter : Parameter) : String :=
  parameter.name.map fun c => if c = '-' then '_' else c.toUpper

def usage (parameter : Parameter) : String :=
  "--" ++ parameter.name
    ++ if parameter.kind.isSome then " <" ++ valueName parameter ++ ">" else ""

def explained (parameter : Parameter) : String :=
  match parameter.standard with
  | none => parameter.about
  | some value =>
    let standard := "[default: " ++ value ++ "]"
    if parameter.about = "" then standard else parameter.about ++ " " ++ standard

/-- Options in the order of an overview: by their places in the lists, then by name. -/
def inOrder (lists : List (List Parameter)) : List Parameter :=
  let placed := lists.flatMap List.zipIdx
  (placed.mergeSort fun a b =>
    a.2 < b.2 || (a.2 == b.2 && decide (a.1.name ≤ b.1.name))).map Prod.fst

def optionsSection (parameters : List Parameter) (hasVersion : Bool) : String :=
  let entries := parameters.map fun parameter => ("    " ++ usage parameter, explained parameter)
  let closing := ("-h, --help", "Print help") ::
    if hasVersion then [("-V, --version", "Print version")] else []
  "\nOptions:\n" ++ rows (entries ++ closing)

def opening (about use : String) : String := about ++ "\n\nUsage: " ++ toolName ++ " " ++ use ++ "\n"

def aboutHelp : String := "Print this message or the help of the given subcommand(s)"

def helpText : Topic → String
  | .tool =>
    opening "Row-level-security policy compiler and evaluator" "[OPTIONS] <COMMAND>"
      ++ "\nCommands:\n"
      ++ rows (Verb.all.map (fun verb => (verb.name, verb.about)) ++ [("help", aboutHelp)])
      ++ optionsSection common true
  | .verb verb =>
    let needed := (verb.own.filter (·.required)).map fun parameter => " " ++ usage parameter
    opening verb.about (verb.name ++ " [OPTIONS]" ++ String.join needed)
      ++ optionsSection (inOrder [verb.own, common]) false
  | .help =>
    opening aboutHelp "help [COMMAND]..." ++ "\nArguments:\n"
      ++ rows [("[COMMAND]...", "Print help for the subcommand(s)")]

end CommandLine

end RowPolicy
