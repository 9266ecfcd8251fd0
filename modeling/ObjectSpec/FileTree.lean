/-!
# Files

Why a text cannot be read, and trees of files: which text a path leads to from
the working directory.
-/

namespace ObjectSpec

/-- Why a text cannot be read. -/
inductive ReadError
  | notFound
  | notPermitted
  | notDirectory
  | directory
  | nameTooLong
  /-- The bytes are no text. -/
  | notText
  | other (reason : String)
deriving DecidableEq

namespace ReadError

/-- The errors of the system, by their numbers. -/
def ofCode? (code : Nat) : Option ReadError :=
  [(2, notFound), (13, notPermitted), (20, notDirectory), (21, directory),
    (36, nameTooLong)].lookup code

def message : ReadError → String
  | .notFound => "No such file or directory (os error 2)"
  | .notPermitted => "Permission denied (os error 13)"
  | .notDirectory => "Not a directory (os error 20)"
  | .directory => "Is a directory (os error 21)"
  | .nameTooLong => "File name too long (os error 36)"
  | .notText => "stream did not contain valid UTF-8"
  | .other reason => reason

end ReadError

/-- Files with their texts, each at the names that lead to it from the root, and the directory where
relative paths start. -/
structure FileTree where
  files : List (List String × String) := []
  working : List String := []

namespace FileTree

/-- Bytes in the longest name, and in the longest path. -/
def nameLimit : Nat := 255

def pathLimit : Nat := 4095

/-- The working directory, the directories of the files, and those above them. -/
def isDirectory (t : FileTree) (place : List String) : Bool :=
  place.isPrefixOf t.working || t.files.any fun (file, _) => place.isPrefixOf file.dropLast

/-- Where names lead from a place. Only a directory can be left, also for itself and for the one
above it. -/
def walk (t : FileTree) : List String → List String → Except ReadError (List String)
  | place, [] => .ok place
  | place, name :: names =>
    if !t.isDirectory place then
      .error (if (t.files.lookup place).isSome then .notDirectory else .notFound)
    else if name = "" ∨ name = "." then t.walk place names
    else if name = ".." then t.walk place.dropLast names
    else if nameLimit < name.utf8ByteSize then .error .nameTooLong
    else t.walk (place ++ [name]) names

/-- The text that a path leads to. -/
def read (t : FileTree) (path : String) : Except ReadError String :=
  if path = "" then .error .notFound
  else if pathLimit < path.utf8ByteSize then .error .nameTooLong
  else do
    let start := if path.toList.head? = some '/' then [] else t.working
    let place ← t.walk start (path.splitOn "/")
    match t.files.lookup place with
    | some text => .ok text
    | none => .error (if t.isDirectory place then .directory else .notFound)

/-- Something stands at the end of a path. -/
def holds (t : FileTree) (path : String) : Bool :=
  match t.read path with
  | .ok _ | .error .directory => true
  | .error _ => false

end FileTree

end ObjectSpec
