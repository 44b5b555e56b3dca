/-! Trees of files, and reading a text from one by its path. A path is followed part
by part, from the root of the tree or, with a leading slash, from the top of all
directories; both putting an entry under a path and reading take the same steps. -/

namespace Contracts

/-- Why a text could not be read from a file. -/
inductive ReadError
  /-- The system refused, with its wording and number. -/
  | system (text : String) (number : Nat)
  | nulInPath
  | notText
deriving DecidableEq

namespace ReadError

def notFound : ReadError := system "No such file or directory" 2

def notADirectory : ReadError := system "Not a directory" 20

def isADirectory : ReadError := system "Is a directory" 21

def nameTooLong : ReadError := system "File name too long" 36

def message : ReadError → String
  | system text number => s!"{text} (os error {number})"
  | nulInPath => "file name contained an unexpected NUL byte"
  | notText => "stream did not contain valid UTF-8"

end ReadError

inductive FileEntry
  | file (content : ByteArray)
  | directory

/-- Where the way down to a place begins. -/
inductive Origin
  /-- The directory so many levels above the root of the tree. -/
  | above (levels : Nat)
  /-- The topmost directory. -/
  | top
deriving DecidableEq

/-- A directory to begin at and the names on the way down from it. -/
structure Place where
  origin : Origin
  names : List String
deriving DecidableEq

namespace Place

def root : Place := ⟨.above 0, []⟩

def top : Place := ⟨.top, []⟩

/-- The directory around a place; the topmost one stays where it is. -/
def parent : Place → Place
  | ⟨.above levels, []⟩ => ⟨.above (levels + 1), []⟩
  | ⟨.top, []⟩ => top
  | ⟨origin, names⟩ => ⟨origin, names.dropLast⟩

/-- Where one part of a path leads from a place. -/
def step (place : Place) (part : String) : Place :=
  if part = "" ∨ part = "." then place
  else if part = ".." then place.parent
  else ⟨place.origin, place.names ++ [part]⟩

/-- The place where a path starts. -/
def startOf (path : String) : Place := if path.startsWith "/" then top else root

end Place

/-- Files and directories under their places, the latest entry for a place first. -/
structure FileTree where
  entries : List (Place × FileEntry)

namespace FileTree

/-! ### Entries -/

def empty : FileTree := ⟨[]⟩

def put (t : FileTree) (place : Place) (entry : FileEntry) : FileTree :=
  ⟨(place, entry) :: t.entries⟩

/-- What stands at a place; there is a directory wherever a way down can begin. -/
def find? (t : FileTree) (place : Place) : Option FileEntry :=
  if place.names = [] then some .directory else t.entries.lookup place

/-- Puts an entry where the parts of a path lead. Every place that they lead through
becomes a directory, one that they leave again by `..` as well. -/
def insertFrom (t : FileTree) (place : Place) (entry : FileEntry) : List String → FileTree
  | [] => t.put place entry
  | part :: rest => (t.put place .directory).insertFrom (place.step part) entry rest

/-- Puts a file or a directory under a path. -/
def insert (t : FileTree) (path : String) (entry : FileEntry) : FileTree :=
  t.insertFrom (.startOf path) entry (path.splitOn "/")

/-! ### Reading -/

/-- The largest number of bytes in the name of a file. -/
def longestName : Nat := 255

/-- The number of bytes from which on a path is refused. -/
def pathLimit : Nat := 4096

/-- Follows the parts of a path; every place on the way has to be a directory. -/
def walk (t : FileTree) (place : Place) : List String → Except ReadError FileEntry
  | [] =>
    match t.find? place with
    | some entry => .ok entry
    | none => .error .notFound
  | part :: rest =>
    match t.find? place with
    | none => .error .notFound
    | some (.file _) => .error .notADirectory
    | some .directory =>
      if longestName < part.utf8ByteSize then .error .nameTooLong
      else t.walk (place.step part) rest

/-- The text of the file at a path. -/
def read (t : FileTree) (path : String) : Except ReadError String :=
  if path.toList.contains '\x00' then .error .nulInPath
  else if path.isEmpty then .error .notFound
  else if pathLimit ≤ path.utf8ByteSize then .error .nameTooLong
  else
    match t.walk (.startOf path) (path.splitOn "/") with
    | .error e => .error e
    | .ok .directory => .error .isADirectory
    | .ok (.file content) =>
      match String.fromUTF8? content with
      | some text => .ok text
      | none => .error .notText

end FileTree

end Contracts
