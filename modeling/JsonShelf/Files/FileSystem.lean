/-
**A file system in memory.**

A file system is a tree of files, some of them programs, with a working directory and a clock.  It
replies to calls as a system does that holds nothing but directories and regular files and never
runs out of anything.

Main definitions:

* `FileSystem` — the file system;
* `FileSystem.locate` — the place that a path leads to;
* `FileSystem.perform` — the reply to a call and the file system after it;
* `FileSystem.attempt` — runs a script that may fail.
-/

import JsonShelf.Files.Call
import JsonShelf.Files.Tree

set_option autoImplicit false

namespace JsonShelf

open Files (Fault Node Status Call)

/-- A tree of files, with a working directory and a clock. -/
structure FileSystem where
  root : Node
  /-- The names that lead from the root to the working directory. -/
  here : List String
  /-- The places of the files that can be run as programs. -/
  programs : List (List String)
  clock : Timestamp

namespace FileSystem

/-! ### Following paths -/

/-- The number of bytes that a name may have. -/
def longestName : Nat := 255

/-- The number of bytes that a path may have. -/
def longestPath : Nat := 4095

/-- The size that directories are told to have. -/
def directorySize : Nat := 4096

/-- The pieces of a path that can be followed. -/
def pieces (path : String) : Except Fault (List String) :=
  if path.toList.contains '\x00' then .error .nulInPath
  else if path.isEmpty then .error .notFound
  else if longestPath < path.utf8ByteSize then .error .nameTooLong
  else .ok (((path.toList.splitOnP (· == '/')).filter (!·.isEmpty)).map String.ofList)

/-- Where a path starts. -/
def start (fs : FileSystem) (path : String) : List String :=
  if Paths.isAbsolute path.toList then [] else fs.here

/-- Does a path end in a slash? -/
def endsInSlash (path : String) : Bool :=
  path.toList.getLast? == some '/'

/-- The entries of the directory at a place. -/
def directoryAt (fs : FileSystem) (place : List String) : Except Fault (Members Node) :=
  match fs.root.find? place with
  | some (.directory entries) => .ok entries
  | some (.file ..) => .error .notDirectory
  | none => .error .notFound

/-- An entry of a directory, there or not. -/
def entry (entries : Members Node) (name : String) : Except Fault (Option Node) :=
  if longestName < name.utf8ByteSize then .error .nameTooLong
  else .ok (Members.get? name entries)

/-- The place one piece of a path further. -/
def follow (fs : FileSystem) (place : List String) (piece : String) :
    Except Fault (List String) := do
  let entries ← fs.directoryAt place
  if piece = "." then return place
  else if piece = ".." then return place.dropLast
  else
    match ← entry entries piece with
    | some _ => return place ++ [piece]
    | none => throw .notFound

/-- The place that a path leads to, and what is there.  A path that ends in a slash leads to
directories only. -/
def locate (fs : FileSystem) (path : String) : Except Fault (List String × Node) := do
  let place ← (← pieces path).foldlM fs.follow (fs.start path)
  match fs.root.find? place with
  | none => throw .notFound
  | some node =>
    if endsInSlash path && !node.isDirectory then throw .notDirectory else return (place, node)

/-- Where an entry is made or taken away: the place of the directory, and the name of the entry
with what is there; no name if the path ends in dots or leads to the root. -/
structure Spot where
  place : List String
  target : Option (String × Option Node)

/-- The spot that a path leads to; the last name need not be there. -/
def spot (fs : FileSystem) (path : String) : Except Fault Spot := do
  let pieces ← pieces path
  let place ← pieces.dropLast.foldlM fs.follow (fs.start path)
  let entries ← fs.directoryAt place
  match pieces.getLast? with
  | none | some "." | some ".." => return ⟨place, none⟩
  | some name => return ⟨place, some (name, ← entry entries name)⟩

/-! ### Calls -/

/-- The file system with a node at a place. -/
def put (fs : FileSystem) (place : List String) (node : Node) : FileSystem :=
  { fs with root := Node.replace node place fs.root }

/-- What a call without result makes of the file system. -/
def commit (fs : FileSystem) : Except Fault FileSystem → Except Fault Unit × FileSystem
  | .ok changed => (.ok (), changed)
  | .error fault => (.error fault, fs)

/-- The content of a file. -/
def read (fs : FileSystem) (path : String) : Except Fault ByteArray := do
  match ← fs.locate path with
  | (_, .file content _) => return content
  | (_, .directory _) => throw .isDirectory

/-- Makes the content the whole content of a file. -/
def write (fs : FileSystem) (path : String) (content : ByteArray) : Except Fault FileSystem := do
  match ← fs.spot path with
  | ⟨_, none⟩ | ⟨_, some (_, some (.directory _))⟩ => throw .isDirectory
  | ⟨place, some (name, _)⟩ =>
    if endsInSlash path then throw .isDirectory
    else return fs.put (place ++ [name]) (.file content fs.clock)

/-- Makes an empty file, which must not exist. -/
def makeFile (fs : FileSystem) (path : String) : Except Fault FileSystem := do
  match ← fs.spot path with
  | ⟨_, none⟩ => throw .alreadyExists
  | ⟨place, some (name, there)⟩ =>
    if endsInSlash path then throw .isDirectory
    else if there.isSome then throw .alreadyExists
    else return fs.put (place ++ [name]) (.file .empty fs.clock)

/-- Takes away a file. -/
def remove (fs : FileSystem) (path : String) : Except Fault FileSystem := do
  match ← fs.spot path with
  | ⟨_, none⟩ | ⟨_, some (_, some (.directory _))⟩ => throw .isDirectory
  | ⟨_, some (_, none)⟩ => throw .notFound
  | ⟨place, some (name, some (.file ..))⟩ =>
    if endsInSlash path then throw .notDirectory
    else return { fs with root := Node.erase (place ++ [name]) fs.root }

/-- Makes a directory. -/
def makeDirectory (fs : FileSystem) (path : String) : Except Fault FileSystem := do
  match ← fs.spot path with
  | ⟨place, some (name, none)⟩ => return fs.put (place ++ [name]) (.directory [])
  | _ => throw .alreadyExists

/-- What is known of a file or directory. -/
def status (fs : FileSystem) (path : String) : Except Fault Status := do
  match ← fs.locate path with
  | (place, .file content modified) =>
    return ⟨false, fs.programs.contains place, content.size, some modified⟩
  | (_, .directory _) => return ⟨true, false, directorySize, some fs.clock⟩

/-- The names in a directory. -/
def entries (fs : FileSystem) (path : String) : Except Fault (List String) := do
  return Members.keys (← fs.directoryAt (← fs.locate path).1)

/-- The reply to a call and the file system after it. -/
def perform : (c : Call) → FileSystem → c.Reply × FileSystem
  | .read path, fs => (fs.read path, fs)
  | .write path content, fs => fs.commit (fs.write path content)
  | .makeFile path, fs => fs.commit (fs.makeFile path)
  | .remove path, fs => fs.commit (fs.remove path)
  | .makeDirectory path, fs => fs.commit (fs.makeDirectory path)
  | .status path, fs => (fs.status path, fs)
  | .entries path, fs => (fs.entries path, fs)
  | .workingDirectory, fs => (.ok ("/" ++ "/".intercalate fs.here), fs)
  | .now, fs => (fs.clock, fs)

/-- Runs a script on a file system. -/
def run {α : Type} (script : Files.FileScript α) (fs : FileSystem) : α × FileSystem :=
  Script.run perform script fs

/-- Runs a script that may fail on a file system. -/
def attempt {α : Type} (script : Files.Attempt α) (fs : FileSystem) :
    Except Fault α × FileSystem :=
  Script.run perform script.run fs

end FileSystem

end JsonShelf
