import RowPolicy.Path

/-!
# Disks

What a program finds when it looks at paths: nothing, a file with its bytes, or a directory. A
`Folder` is such a world held as a tree; paths are looked up in it from its root, as relative
paths are from a working directory.
-/

namespace RowPolicy

/-- What there is at a path. Of a directory only the names of its regular files matter, in no
particular order. -/
inductive Found
  | nothing
  | file (content : ByteArray)
  | directory (files : List String)

structure Disk where
  find : String → Found

namespace Disk

/-- The text of a file, if there is one and its bytes are UTF-8. -/
def read? (disk : Disk) (path : String) : Option String :=
  match disk.find path with
  | .file content => String.fromUTF8? content
  | _ => none

def occupied (disk : Disk) (path : String) : Bool :=
  match disk.find path with
  | .nothing => false
  | _ => true

def list? (disk : Disk) (path : String) : Option (List String) :=
  match disk.find path with
  | .directory files => some files
  | _ => none

/-- The disk on which there is something at the listed paths only. -/
def ofList (found : List (String × Found)) : Disk :=
  ⟨fun path => (found.lookup path).getD .nothing⟩

end Disk

inductive Folder
  | file (content : ByteArray)
  | folder (entries : List (String × Folder))

namespace Folder

instance : Inhabited Folder := ⟨.folder []⟩

/-- The entries of a folder; a file has none. -/
def entries : Folder → List (String × Folder)
  | .file _ => []
  | .folder entries => entries

/-- Puts a tree at a path given by its parts, making the folders on the way. -/
def put (content : Folder) : List String → Folder → Folder
  | [], _ => content
  | name :: rest, tree =>
    let below := (tree.entries.lookup name).getD default
    .folder ((tree.entries.filter fun entry => entry.1 != name) ++ [(name, put content rest below)])

def make : List String → Folder → Folder
  | [], tree => .folder tree.entries
  | name :: rest, tree =>
    let below := (tree.entries.lookup name).getD default
    .folder ((tree.entries.filter fun entry => entry.1 != name) ++ [(name, make rest below)])

/-- Makes a folder at a path given by its parts, unless a file is in the way. -/
def makeUnlessBlocked? : List String → Folder → Option Folder
  | [], .folder entries => some (.folder entries)
  | _, .file _ => none
  | name :: rest, .folder entries =>
    (makeUnlessBlocked? rest ((entries.lookup name).getD default)).map fun below =>
      .folder ((entries.filter fun entry => entry.1 != name) ++ [(name, below)])

/-- What the parts of a path lead to from a tree, whose enclosing folders are listed innermost
first. Only a folder can be gone through. -/
def walk (outer : List Folder) (tree : Folder) : List String → Option Folder
  | [] => some tree
  | name :: rest =>
    match tree with
    | .file _ => none
    | .folder entries =>
      if name = "" ∨ name = "." then walk outer tree rest
      else if name = ".." then
        match outer with
        | [] => none
        | parent :: outer => walk outer parent rest
      else
        match entries.lookup name with
        | some below => walk (tree :: outer) below rest
        | none => none

/-- The world in which a tree is the working directory. -/
def disk (tree : Folder) : Disk where
  find path :=
    if path = "" ∨ path.toList.head? = some '/' then .nothing
    else
      match walk [] tree (path.splitOn "/") with
      | none => .nothing
      | some (.file content) => .file content
      | some (.folder entries) =>
        .directory (entries.filterMap fun
          | (name, .file _) => some name
          | (_, .folder _) => none)

end Folder

end RowPolicy
