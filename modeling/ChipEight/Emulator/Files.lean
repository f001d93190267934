import ChipEight.Instruction.Basic
import ChipEight.Text.Quoted

/-!
# Program files

A tree of directories and files in which a program file is looked up by name. A
name is a path: its parts are followed one by one from the top of the tree, and
the first part that cannot be followed decides why the file cannot be read.
Directories and files are put into the tree by paths as well, and every directory on
the way is there with them.
-/

namespace ChipEight

inductive ReadError
  | notFound
  | notADirectory
  | isADirectory
  | nameTooLong
  deriving DecidableEq

namespace ReadError

/-- The number of the reason among the errors of the system. -/
def number : ReadError → Nat
  | notFound => 2
  | notADirectory => 20
  | isADirectory => 21
  | nameTooLong => 36

def reason : ReadError → String
  | notFound => "No such file or directory"
  | notADirectory => "Not a directory"
  | isADirectory => "Is a directory"
  | nameTooLong => "File name too long"

def message (e : ReadError) (name : String) : String :=
  "[Errno " ++ toString e.number ++ "] " ++ e.reason ++ ": " ++ Text.quoted name

end ReadError

structure FileTree where
  directories : List String
  files : List (String × List Byte)
  deriving DecidableEq

namespace FileTree

def parts (path : String) : List String := (path.toList.splitOn '/').map String.ofList

/-- Where a path starts: at the root if it begins with a slash, and at the top of
the tree otherwise. A place is written as the parts that lead to it. -/
def origin (path : String) : List String :=
  if path.toList.head? = some '/' then ["/"] else []

/-- One part of a path followed without a look at what is there. Above the top of
the tree a place has only parts that lead further up. -/
def step (place : List String) (part : String) : List String :=
  if part = "" ∨ part = "." then place
  else if part = ".." then
    if place = ["/"] then place
    else if place.all (· = "..") then place ++ [".."]
    else place.dropLast
  else place ++ [part]

/-- The places that a path leads through, the last one at its end. -/
def trail (place : List String) : List String → List (List String)
  | [] => []
  | part :: rest => step place part :: trail (step place part) rest

def places (path : String) : List (List String) := trail (origin path) (parts path)

/-- Whether a place is a directory: the root, the top of the tree and all above it
are, and whatever a named directory or file is reached through. -/
def hasDirectory (t : FileTree) (place : List String) : Bool :=
  place = ["/"] || place.all (· = "..") ||
    t.directories.any (fun name => (places name).contains place) ||
    t.files.any fun entry => (places entry.1).dropLast.contains place

/-- The contents of the file at a place. Of several files that are put there the
last one stays. -/
def file? (t : FileTree) (place : List String) : Option (List Byte) :=
  ((t.files.filter fun entry => (places entry.1).getLast? = some place).getLast?).map Prod.snd

/-- What a part of a path has led to. -/
inductive Stop
  | directory (place : List String)
  | file (contents : List Byte)

/-- The longest part of a path and the longest path, in bytes. -/
def maximalPart : Nat := 255

def maximalPath : Nat := 4095

def follow (t : FileTree) (stop : Stop) (part : String) : Except ReadError Stop :=
  match stop with
  | .file _ => .error .notADirectory
  | .directory place =>
    let next := step place part
    if t.hasDirectory next then .ok (.directory next)
    else
      match t.file? next with
      | some contents => .ok (.file contents)
      | none =>
        if maximalPart < part.utf8ByteSize then .error .nameTooLong else .error .notFound

def read (t : FileTree) (name : String) : Except ReadError (List Byte) :=
  if name = "" then .error .notFound
  else if maximalPath < name.utf8ByteSize then .error .nameTooLong
  else
    match (parts name).foldlM (follow t) (.directory (origin name)) with
    | .error e => .error e
    | .ok (.file contents) => .ok contents
    | .ok _ => .error .isADirectory

end FileTree
end ChipEight
