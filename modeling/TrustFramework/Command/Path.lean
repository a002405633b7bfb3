import TrustFramework.Text.Quoted

/-!
# Paths and files

A path is a text whose parts stand between slashes. Empty parts and those of a single
point do not count.

* `Path.shown`, `Path.name` — a path as it is written, and its last part.
* `ReadFault` — why a file cannot be read.
* `FileTree` — files below one directory, by their paths; `FileTree.read` — reading one.
-/

namespace TrustFramework
namespace Path

/-- The parts of a path. -/
def parts (path : String) : List String :=
  (path.splitOn "/").filter fun part => part ≠ "" && part ≠ "."

/-- The root of a path: a slash, exactly two, or nothing. -/
def root (path : String) : String :=
  match path.toList with
  | '/' :: '/' :: '/' :: _ => "/"
  | '/' :: '/' :: _ => "//"
  | '/' :: _ => "/"
  | _ => ""

/-- A path of a root and parts. One without any is the directory at hand. -/
def ofParts (root : String) (parts : List String) : String :=
  if root.isEmpty && parts.isEmpty then "." else root ++ "/".intercalate parts

/-- A path without what does not count. -/
def shown (path : String) : String := ofParts (root path) (parts path)

/-- The last part of a path. -/
def name (path : String) : String := ((parts path).getLast?).getD ""

/-- Parts without those that lead back to where one came from, behind those in `acc`,
the last one first. -/
def settleFrom (acc : List String) : List String → List String
  | [] => acc.reverse
  | ".." :: rest =>
    match acc with
    | [] => settleFrom [".."] rest
    | last :: before =>
      if last = ".." then settleFrom (".." :: acc) rest else settleFrom before rest
  | part :: rest => settleFrom (part :: acc) rest

/-- The place that a path leads to, in fewest parts. -/
def settled (path : String) : String := ofParts (root path) (settleFrom [] (parts path))

/-- The directory that a path stands in. -/
def parent (path : String) : String := ofParts (root path) (parts path).dropLast

end Path

/-- Why a file cannot be read. -/
inductive ReadFault where
  | missing
  /-- A part of the path that is not the last one is a file. -/
  | throughFile
  | directory
  | other (words : String)
  deriving DecidableEq, Repr

/-- The wording of a fault, with the path that it is about. -/
def ReadFault.message (path : String) : ReadFault → String
  | missing => "[Errno 2] No such file or directory: " ++ Text.quoted path
  | throughFile => "[Errno 20] Not a directory: " ++ Text.quoted path
  | directory => "[Errno 21] Is a directory: " ++ Text.quoted path
  | other words => words

/-- Files below the directory at hand, by the parts of their paths. -/
abbrev FileTree := List (List String × String)

namespace FileTree

/-- Files by their paths. -/
def ofPaths (files : List (String × String)) : FileTree :=
  files.map fun (path, text) => (Path.parts path, text)

/-- Whether a directory stands at some parts. -/
def hasDirectory (t : FileTree) (parts : List String) : Bool :=
  parts.isEmpty || t.any fun (file, _) => parts.isPrefixOf file && parts.length < file.length

/-- The parts that a path leads to, from a directory given by its parts, the last one
first. -/
def locate (t : FileTree) (here : List String) : List String → Except ReadFault (List String)
  | [] => .ok here.reverse
  | ".." :: rest =>
    match here with
    | [] => .error .missing
    | _ :: above => locate t above rest
  | part :: rest =>
    let next := part :: here
    if (t.lookup next.reverse).isSome then
      if rest.isEmpty then .ok next.reverse else .error .throughFile
    else if t.hasDirectory next.reverse then locate t next rest
    else .error .missing

/-- What the file at a path holds. Nothing is known about what stands elsewhere. -/
def read (t : FileTree) (path : String) : Except ReadFault String := do
  if !(Path.root path).isEmpty then throw .missing
  match t.lookup (← t.locate [] (Path.parts path)) with
  | some text => pure text
  | none => throw .directory

end FileTree
end TrustFramework
