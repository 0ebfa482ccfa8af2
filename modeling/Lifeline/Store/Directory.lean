import Lifeline.Store.Basic
import Lifeline.Store.Path

/-!
# Directories

A directory of files and directories with their permission bits (`Directory`), as a store of texts.
Files hold bytes; texts are read and written as UTF-8.

A file is written by replacement (`Directory.replace`): its new content goes to a temporary file
beside it, which then takes its place. Where a step on the way fails, the temporary file is removed
and the file is as it was.
-/

namespace Lifeline.Store

/-- Where a file or a directory is: the names on the way from the working directory, without
detours. -/
abbrev Place := List String

/-- A file or a directory, with its permission bits. -/
inductive Node where
  | file (bytes : ByteArray) (mode : Nat)
  | directory (mode : Nat)

/-- What is where. The working directory is the empty place. -/
structure Directory where
  nodes : List (Place × Node) := [([], .directory 0o700)]

namespace Directory

/-! ## Places -/

def node? (d : Directory) (p : Place) : Option Node := d.nodes.lookup p

/-- A directory without what is at a place. -/
def erase (d : Directory) (p : Place) : Directory := { nodes := d.nodes.filter (·.1 != p) }

/-- A directory with something at a place, instead of what is there. -/
def put (d : Directory) (p : Place) (n : Node) : Directory :=
  { nodes := (p, n) :: (d.erase p).nodes }

/-- Why a path leads nowhere. -/
inductive Absence where
  | missing | notDirectory | nameTooLong
deriving Repr, DecidableEq

/-- The longest name of a file, in bytes. -/
def maxName : Nat := 255

/-- One step on the way from a place. -/
def step (d : Directory) (p : Place) (name : String) : Except Absence Place :=
  match d.node? p with
  | none => .error .missing
  | some (.file _ _) => .error .notDirectory
  | some (.directory _) =>
    if name == ".." then .ok p.dropLast
    else if name.utf8ByteSize > maxName then .error .nameTooLong
    else .ok (p ++ [name])

/-- Where names lead. The last of them need not be there. -/
def walk (d : Directory) (names : List String) : Except Absence Place := names.foldlM d.step []

/-- Where a path leads. Nothing outside of the working directory is known. -/
def locate (d : Directory) (p : Path) : Except Absence Place :=
  if p.isAbsolute then .error .missing else d.walk p.names

/-- What a path leads to. -/
def find (d : Directory) (p : Path) : Except Absence Node := do
  match d.node? (← d.locate p) with
  | some n => return n
  | none => throw .missing

/-- A refusal for which the store gives no reason. -/
def refused : Fault := .refused none

/-- Whether a path can be asked for. -/
def isValid (path : String) : Bool := !path.toList.contains (Char.ofNat 0)

/-! ## Reading -/

/-- Text with a line feed at the end of each line. -/
def endLines : List Char → List Char
  | '\r' :: '\n' :: cs => '\n' :: endLines cs
  | '\r' :: cs => '\n' :: endLines cs
  | c :: cs => c :: endLines cs
  | [] => []

/-- The text that bytes write. -/
def decode (bytes : ByteArray) : Except Fault String :=
  match String.fromUTF8? bytes with
  | some text => .ok (.ofList (endLines text.toList))
  | none => .error .notText

def isFile (d : Directory) (path : String) : Except Fault Bool :=
  if isValid path then
    match d.find (.ofString path) with
    | .ok (.file _ _) => .ok true
    | .error .nameTooLong => .error refused
    | _ => .ok false
  else .ok false

def read (d : Directory) (path : String) : Except Fault String :=
  if isValid path then
    match d.find (.ofString path) with
    | .ok (.file bytes _) => decode bytes
    | _ => .error refused
  else .error .invalidPath

/-! ## Removing -/

/-- A directory without a file. To remove a file that is not there is no failure. -/
def remove (d : Directory) (path : String) : Directory × Except Fault Unit :=
  if isValid path then
    match d.locate (.ofString path) with
    | .error .missing => (d, .ok ())
    | .error _ => (d, .error refused)
    | .ok p =>
      match d.node? p with
      | none => (d, .ok ())
      | some (.file _ _) => (d.erase p, .ok ())
      | some (.directory _) => (d, .error refused)
  else (d, .error .invalidPath)

/-! ## Writing -/

/-- A directory with all directories on the way from a place that names give. Those that could be
made stay where a later one cannot. -/
def makeDirectories (d : Directory) (p : Place) :
    List String → Directory × Except Fault Place
  | [] => (d, .ok p)
  | name :: rest =>
    match d.step p name with
    | .error _ => (d, .error refused)
    | .ok q =>
      match d.node? q with
      | some (.directory _) => makeDirectories d q rest
      | some (.file _ _) => (d, .error refused)
      | none => makeDirectories (d.put q (.directory 0o755)) q rest

/-- The calls by which a file is written. -/
inductive Call where
  | makeParents | createTemporary | openTemporary | writeTemporary | closeTemporary | setMode
  | rename
deriving Repr, DecidableEq

/-- Calls in order, each with what it does where it can, up to the first one that fails. -/
def runCalls (fails : Call → Bool) (d : Directory) :
    List (Call × (Directory → Option Directory)) → Directory × Except Fault Unit
  | [] => (d, .ok ())
  | (call, effect) :: rest =>
    if fails call then (d, .error refused)
    else
      match effect d with
      | none => (d, .error refused)
      | some d => runCalls fails d rest

/-- The name of the temporary file with a number. -/
def temporaryName (name : String) (n : Nat) : String :=
  let digits := Nat.toDigits 10 n
  "." ++ name ++ "." ++ .ofList (List.replicate (8 - digits.length) '0' ++ digits) ++ ".tmp"

/-- Where a temporary file beside a file with a name can be, in a directory at a place. -/
def temporaryPlace (d : Directory) (p : Place) (name : String) : Place :=
  let places := (List.range (d.nodes.length + 1)).map fun n => p ++ [temporaryName name n]
  (places.find? fun q => (d.node? q).isNone).getD (p ++ [temporaryName name d.nodes.length])

/-- A directory with the bytes of a file. -/
def setBytes (p : Place) (bytes : ByteArray) (d : Directory) : Option Directory :=
  match d.node? p with
  | some (.file _ mode) => some (d.put p (.file bytes mode))
  | _ => none

/-- A directory with the permission bits of a file or a directory. -/
def setModeAt (p : Place) (mode : Nat) (d : Directory) : Option Directory :=
  match d.node? p with
  | some (.file bytes _) => some (d.put p (.file bytes mode))
  | some (.directory _) => some (d.put p (.directory mode))
  | none => none

/-- A directory where one file has taken the place of another one. It cannot take the place of a
directory. -/
def renameTo (p q : Place) (d : Directory) : Option Directory :=
  match d.node? p, d.node? q with
  | _, some (.directory _) => none
  | some n, _ => some ((d.erase p).put q n)
  | none, _ => none

/-- The calls that fill a temporary file and put it in place of a file. -/
def fillCalls (temporary target : Place) (bytes : ByteArray) (mode : Option Nat) :
    List (Call × (Directory → Option Directory)) :=
  [(.openTemporary, some), (.writeTemporary, setBytes temporary bytes), (.closeTemporary, some)] ++
  (match mode with
    | some mode => [(.setMode, setModeAt temporary mode)]
    | none => []) ++
  [(.rename, renameTo temporary target)]

/-- The permission bits of what is at a place, where it is a file. -/
def fileMode? (d : Directory) (p : Place) : Option Nat :=
  match d.node? p with
  | some (.file _ mode) => some mode
  | _ => none

/-- A directory after a file with a name was written in the directory at a place. A new file may be
read and written by its owner only; a file that was there keeps its permission bits. -/
def replaceIn (fails : Call → Bool) (d : Directory) (p : Place) (name : String)
    (bytes : ByteArray) : Directory × Except Fault Unit :=
  let target := if name == ".." then p.dropLast else if name.isEmpty then p else p ++ [name]
  let temporary := d.temporaryPlace p name
  if fails .createTemporary || (temporaryName name 0).utf8ByteSize > maxName then
    (d, .error refused)
  else
    match runCalls fails (d.put temporary (.file .empty 0o600))
        (fillCalls temporary target bytes (d.fileMode? target)) with
    | (d, .ok _) => (d, .ok ())
    | (d, .error e) => (d.erase temporary, .error e)

/-- A directory after a file was written, where calls fail that cannot be done or that `fails` says
so of. -/
def replace (fails : Call → Bool) (d : Directory) (path : Path) (bytes : ByteArray) :
    Directory × Except Fault Unit :=
  if path.isAbsolute || fails .makeParents then (d, .error refused)
  else
    match d.makeDirectories [] path.parent.names with
    | (d, .error e) => (d, .error e)
    | (d, .ok p) => replaceIn fails d p path.name bytes

/-- A directory after a text was written to a file. -/
def write (d : Directory) (path text : String) : Directory × Except Fault Unit :=
  if isValid path then d.replace (fun _ => false) (.ofString path) text.toUTF8
  else (d, .error .invalidPath)

/-! ## Permission bits -/

/-- The permission bits of what a path leads to. -/
def mode (d : Directory) (path : String) : Except Fault Nat :=
  if isValid path then
    match d.find (.ofString path) with
    | .ok (.file _ mode) | .ok (.directory mode) => .ok mode
    | .error _ => .error refused
  else .error .invalidPath

/-- A directory with the permission bits of what a path leads to. -/
def setMode (d : Directory) (path : String) (mode : Nat) : Directory × Except Fault Unit :=
  if isValid path then
    match d.locate (.ofString path) with
    | .error _ => (d, .error refused)
    | .ok p =>
      match setModeAt p mode d with
      | some d => (d, .ok ())
      | none => (d, .error refused)
  else (d, .error .invalidPath)

/-! ## As a store -/

/-- A directory as a store. -/
def store : Store Directory where
  isFile := isFile
  read := read
  write := write
  remove := remove

/-- A directory that holds the given files, with the directories on their way; what has no content
is a directory itself. -/
def ofFiles (files : List (String × Option ByteArray)) : Directory :=
  files.foldl (fun d (path, content) =>
    let p := Path.ofString path
    match content with
    | none => (d.makeDirectories [] p.names).1
    | some bytes =>
      match d.makeDirectories [] p.parent.names with
      | (d, .ok q) => d.put (q ++ [p.name]) (.file bytes 0o644)
      | (d, .error _) => d) {}

/-- The files of a directory, with their bytes. -/
def files (d : Directory) : List (String × ByteArray) :=
  d.nodes.filterMap fun
    | (p, .file bytes _) => some (Text.Packed.join "/" p, bytes)
    | (_, .directory _) => none

end Directory

end Lifeline.Store
