set_option autoImplicit false

/- Reading files by path, and a tree of files held in memory. -/
namespace PeriodicJobs

inductive ReadFault where
  | notFound
  | notDirectory
  | isDirectory
  | nameTooLong
  | zeroInName
  | notText
deriving DecidableEq

def ReadFault.message : ReadFault → String
  | .notFound => "No such file or directory (os error 2)"
  | .notDirectory => "Not a directory (os error 20)"
  | .isDirectory => "Is a directory (os error 21)"
  | .nameTooLong => "File name too long (os error 36)"
  | .zeroInName => "file name contained an unexpected NUL byte"
  | .notText => "stream did not contain valid UTF-8"

/-- Looks up the content of a path. -/
abbrev Files : Type := String → Except ReadFault (List UInt8)

inductive Entry where
  | file (content : List UInt8)
  | directory

/-- The entries of a directory, which is the current one. -/
abbrev FileTree : Type := List (String × Entry)

namespace FileTree

/-- The names between the slashes of a path. -/
def names (path : String) : List String := (path.toList.splitOn '/').map String.ofList

def entry? (tree : FileTree) (place : List String) : Option Entry :=
  if place.isEmpty then some .directory
  else
    match tree.find? fun (path, _) => names path == place with
    | some (_, entry) => some entry
    | none =>
      if tree.any fun (path, _) => place.isPrefixOf (names path) then some .directory else none

def maxNameLength : Nat := 255

def maxPathLength : Nat := 4095

/-- A place: one in the tree, or a directory outside of it. -/
abbrev Place : Type := Option (List String)

def Place.entry? (tree : FileTree) : Place → Option Entry
  | some names => FileTree.entry? tree names
  | none => some .directory

/-- The directory of a place. That of the whole tree is outside. -/
def Place.parent : Place → Place
  | none | some [] => none
  | some names => some names.dropLast

/-- Follows names from a place. Every name but the last has to lead to a directory; an empty name
or a single dot stays where it is, and two dots go up. Nothing is known outside of the tree. -/
def follow (tree : FileTree) (place : Place) : List String → Except ReadFault Entry
  | [] =>
    match place.entry? tree with
    | some entry => .ok entry
    | none => .error .notFound
  | name :: rest =>
    match place.entry? tree with
    | none => .error .notFound
    | some (.file _) => .error .notDirectory
    | some .directory =>
      if maxNameLength < name.utf8ByteSize then .error .nameTooLong
      else if name = "" ∨ name = "." then follow tree place rest
      else if name = ".." then follow tree place.parent rest
      else
        match place with
        | some names => follow tree (some (names ++ [name])) rest
        | none => .error .notFound

/-- Finds what a path leads to. Paths start in the tree, or at the root of the file system. -/
def find (tree : FileTree) (path : String) : Except ReadFault Entry :=
  if path.contains '\x00' then .error .zeroInName
  else if maxPathLength < path.utf8ByteSize then .error .nameTooLong
  else if path.isEmpty then .error .notFound
  else follow tree (if path.startsWith "/" then none else some []) (names path)

def read (tree : FileTree) : Files := fun path =>
  match tree.find path with
  | .ok (.file content) => .ok content
  | .ok .directory => .error .isDirectory
  | .error fault => .error fault

end FileTree

end PeriodicJobs
