import SchemaPlan.Assoc
import SchemaPlan.Text.Search

/-!
# File trees

A value that stands for directories, files and symbolic links, with a working directory. Paths are
resolved as a file system does it: a name is looked up in a directory, `.` and an empty name stay
there, `..` goes up, and a link is replaced by its target, at most a fixed number of times. Besides
looking up there is what builds a tree, and the search of a directory for files with wanted names,
which enters real directories only, so that links in a circle do no harm. A path or a name that is
too long leads nowhere, and nothing is made under it.
-/

namespace SchemaPlan

/-- A file, a link or a directory. -/
inductive Node where
  /-- A regular file. -/
  | file (content : List UInt8)
  /-- A symbolic link to a path, which is relative to the directory of the link. -/
  | link (target : String)
  /-- A directory, with its entries in the order in which they are listed. -/
  | dir (entries : List (String × Node))

/-- A root directory and the names that lead from it to the working directory. -/
structure FileTree where
  root : Node := .dir []
  workingDirectory : List String := []

namespace Node

/-- The entries of a directory; other nodes have none. -/
def entries : Node → List (String × Node)
  | dir es => es
  | _ => []

/-- The node that names lead to without following links. -/
def at? (node : Node) : List String → Option Node
  | [] => some node
  | name :: rest =>
    match node with
    | dir es => (es.lookup name).bind fun inner => inner.at? rest
    | _ => none

/-- Put a node at a path of names; directories on the way are made, and what is there is replaced.
-/
def put (leaf : Node) : List String → Node → Node
  | [], _ => leaf
  | name :: rest, node =>
    let inner := (node.entries.lookup name).getD (dir [])
    dir (Assoc.set name (put leaf rest inner) node.entries)

/-- Remove the file or link that names lead to; anything else stays. -/
def remove : List String → Node → Node
  | [], node => node
  | [name], node =>
    match node, node.entries.lookup name with
    | dir es, some (file _) | dir es, some (link _) => dir (Assoc.erase name es)
    | node, _ => node
  | name :: rest, node =>
    match node, node.entries.lookup name with
    | dir es, some inner => dir (Assoc.set name (remove rest inner) es)
    | node, _ => node

end Node

namespace FileTree

/-! ### Resolving paths -/

/-- The number of links that are followed for one path. -/
def maxLinks : Nat := 40

/-- The number of bytes that a path may have. -/
def maxPathSize : Nat := 4095

/-- The number of bytes that the name of an entry may have. -/
def maxNameSize : Nat := 255

/-- Whether a text can be used as a path at all. -/
def isPath (path : String) : Bool := path.utf8ByteSize ≤ maxPathSize && !path.contains '\x00'

/-- The names of a path, and whether it begins at the root. -/
def splitPath (path : String) : Bool × List String :=
  let names := (path.toList.splitOnP (· == '/')).map String.ofList
  match names with
  | "" :: rest@(_ :: _) => (true, rest)
  | _ => (false, names)

/-- Follow names from a directory until a link is met; `onLink` goes on with the directory of the
link and the names still to follow, which begin with those of the target. With `creating`, the
last name may be that of something about to be made, unless it is too long. -/
def follow (root : Node) (creating : Bool)
    (onLink : List String → List String → Option (List String)) (place : List String) :
    List String → Option (List String)
  | [] => some place
  | name :: rest =>
    match root.at? place with
    | some (.dir es) =>
      if name = "" ∨ name = "." then follow root creating onLink place rest
      else if name = ".." then follow root creating onLink place.dropLast rest
      else
        match es.lookup name with
        | some (.link target) =>
          let (absolute, names) := splitPath target
          onLink (if absolute then [] else place) (names ++ rest)
        | some _ => follow root creating onLink (place ++ [name]) rest
        | none =>
          if creating && rest.isEmpty && name.utf8ByteSize ≤ maxNameSize then some (place ++ [name])
          else none
    | _ => none

/-- Follow names from a directory, through at most `links` links. -/
def resolveFrom (root : Node) (creating : Bool) :
    Nat → List String → List String → Option (List String)
  | 0 => follow root creating fun _ _ => none
  | links + 1 => follow root creating (resolveFrom root creating links)

/-- The names that lead to what a path stands for, with all links followed. -/
def resolve? (t : FileTree) (creating : Bool) (path : String) : Option (List String) :=
  if isPath path then
    let (absolute, names) := splitPath path
    resolveFrom t.root creating maxLinks (if absolute then [] else t.workingDirectory) names
  else none

/-- What a path stands for, with all links followed. -/
def node? (t : FileTree) (path : String) : Option Node :=
  if path = "" then none else (t.resolve? false path).bind t.root.at?

/-- Whether a path leads to a directory. -/
def isDir (t : FileTree) (path : String) : Bool :=
  match t.node? path with
  | some (.dir _) => true
  | _ => false

/-- Whether a path leads to a regular file. -/
def isFile (t : FileTree) (path : String) : Bool :=
  match t.node? path with
  | some (.file _) => true
  | _ => false

/-- The content of the file that a path leads to. -/
def read? (t : FileTree) (path : String) : Option (List UInt8) :=
  match t.node? path with
  | some (.file content) => some content
  | _ => none

/-- A path with a name added. -/
def join (path name : String) : String :=
  if path = "" ∨ Text.endsWith ['/'] path.toList then path ++ name else path ++ "/" ++ name

/-! ### Changing a tree -/

/-- Put a node where names lead; nothing changes if they lead nowhere. -/
def putAt (t : FileTree) (leaf : Node) : Option (List String) → FileTree
  | some names => { t with root := Node.put leaf names t.root }
  | none => t

/-- The directory part and the last name of a path. -/
def splitLast (path : String) : String × String :=
  let s := path.toList
  let name := (s.reverse.takeWhile (· ≠ '/')).reverse
  (String.ofList (s.take (s.length - name.length)), String.ofList name)

/-- The names that lead to an entry itself, which is not followed if it is a link. -/
def entry? (t : FileTree) (path : String) : Option (List String) :=
  let (parent, name) := splitLast path
  if !isPath path || name = "" || name = "." || name = ".." then none
  else (t.resolve? false parent).map (· ++ [name])

/-- The names of an entry that can be made: there is nothing yet, and its name is not too long. -/
def vacant? (t : FileTree) (path : String) : Option (List String) :=
  if (splitLast path).2.utf8ByteSize ≤ maxNameSize then
    (t.entry? path).filter fun names => (t.root.at? names).isNone
  else none

/-- Make the directories of some names, one below the other, as far as they are missing. -/
def makeDirsFrom (t : FileTree) (start : String) : List String → FileTree
  | [] => t
  | name :: rest =>
    let path := join start name
    (t.putAt (.dir []) (t.vacant? path)).makeDirsFrom path rest

/-- Make a directory and those on the way to it, as far as they are missing. -/
def makeDir (t : FileTree) (path : String) : FileTree :=
  if isPath path then
    let (absolute, names) := splitPath path
    t.makeDirsFrom (if absolute then "/" else "") (names.filter (· ≠ ""))
  else t

/-- A path, from its end to its front, without the slashes and dots at its end that do not change
where it leads. -/
def withoutIdleEnd : List Char → List Char
  | '/' :: rest@(_ :: _) => withoutIdleEnd rest
  | '.' :: '/' :: rest@(_ :: _) => withoutIdleEnd rest
  | s => s

/-- The directory in which the last name of a path is looked up. -/
def parentPath (path : String) : String :=
  let upToName := (withoutIdleEnd path.toList.reverse).dropWhile (· ≠ '/')
  String.ofList (withoutIdleEnd upToName).reverse

/-- Write a file; directories on the way are made. -/
def write (t : FileTree) (path : String) (content : List UInt8) : FileTree :=
  let t := t.makeDir (parentPath path)
  if t.isDir path then t else t.putAt (.file content) (t.resolve? true path)

/-- Make a link where there is nothing yet; directories on the way are made. -/
def makeLink (t : FileTree) (path target : String) : FileTree :=
  let t := t.makeDir (parentPath path)
  if target ≠ "" && isPath target then t.putAt (.link target) (t.vacant? path) else t

/-- Remove a file or a link. -/
def remove (t : FileTree) (path : String) : FileTree :=
  match t.entry? path with
  | some names => { t with root := Node.remove names t.root }
  | none => t

/-! ### Searching a directory -/

/-- Something met while a directory is searched. -/
inductive Finding where
  /-- A file with a wanted name, by its path below the directory searched and its path as a whole.
  -/
  | file (relative path : String)
  /-- A link to a directory, which is not entered. -/
  | skippedLink (path : String)
  /-- A directory whose path is too long for it to be listed. -/
  | unlisted (path : String)
deriving DecidableEq, Repr

mutual

/-- What is met at a node with a given name and below it. -/
def search (t : FileTree) (wanted : String → Bool) (relative path name : String) :
    Node → List Finding
  | .dir es => if isPath path then searchAll t wanted relative path es else [.unlisted path]
  | .link _ =>
    if t.isDir path then [.skippedLink path]
    else if wanted name then [.file relative path] else []
  | .file _ => if wanted name then [.file relative path] else []

/-- What is met at the entries of a directory and below them. -/
def searchAll (t : FileTree) (wanted : String → Bool) (relative path : String) :
    List (String × Node) → List Finding
  | [] => []
  | e :: es => searchEntry t wanted relative path e ++ searchAll t wanted relative path es

/-- What is met at an entry of a directory and below it. -/
def searchEntry (t : FileTree) (wanted : String → Bool) (relative path : String) :
    String × Node → List Finding
  | (name, node) => search t wanted (join relative name) (join path name) name node

end

/-- What is met below the directory that a path leads to; nothing if it leads to none. -/
def findings (t : FileTree) (wanted : String → Bool) (path : String) : Option (List Finding) :=
  match t.node? path with
  | some (.dir es) => some (t.searchAll wanted "" path es)
  | _ => none

end FileTree

end SchemaPlan
