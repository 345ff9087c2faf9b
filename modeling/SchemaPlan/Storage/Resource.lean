import SchemaPlan.PlanError
import SchemaPlan.Storage.FileTree
import SchemaPlan.Text.Utf8

/-!
# Resources

A resource is a piece of content found below a location, under a path relative to that location.
Its content is either held in memory or read from a file each time it is needed, so a file may
have changed or gone in between. As a text the content is UTF-8, and one byte order mark at its
front is dropped.
-/

namespace SchemaPlan

/-- Where the content of a resource is. -/
inductive Content where
  /-- In the file of a path. -/
  | file (path : String)
  /-- In memory. -/
  | memory (bytes : List UInt8)
deriving DecidableEq, Repr

/-- A piece of content found below a location. -/
structure Resource where
  /-- The path relative to the location, with `/` between its segments. -/
  path : String
  /-- Where the content came from, for messages. -/
  physicalLocation : String
  /-- Where the content is. -/
  content : Content
deriving DecidableEq, Repr

/-- The last segment of a path. -/
def lastSegment (path : String) : String :=
  String.ofList (path.toList.reverse.takeWhile (· ≠ '/')).reverse

namespace Resource

/-- The resource of a file. -/
def ofFile (path file : String) : Resource := ⟨path, file, .file file⟩

/-- The resource of some bytes. -/
def inMemory (path physicalLocation : String) (bytes : List UInt8) : Resource :=
  ⟨path, physicalLocation, .memory bytes⟩

/-- The name of a resource, without the directories. -/
def filename (r : Resource) : String := lastSegment r.path

/-- The content. -/
def bytes (files : FileTree) (r : Resource) : Except PlanError (List UInt8) :=
  match r.content with
  | .memory bytes => .ok bytes
  | .file path =>
    match files.read? path with
    | some bytes => .ok bytes
    | none => .error (.io r.physicalLocation "the file cannot be read")

/-- The character that marks the order of bytes at the front of a text. -/
def byteOrderMark : Char := '\ufeff'

/-- A text without the byte order mark at its front. -/
def withoutMark (text : String) : String :=
  match text.toList with
  | c :: cs => if c = byteOrderMark then String.ofList cs else text
  | [] => text

/-- The content as a text. -/
def text (files : FileTree) (r : Resource) : Except PlanError String := do
  match Text.decodeText (← r.bytes files) with
  | .ok text => return withoutMark text
  | .error e => throw (.content r.physicalLocation s!"content is not valid UTF-8: {e.message}")

/-- What is held in memory does not depend on the files. -/
theorem text_inMemory (files other : FileTree) (path physicalLocation : String)
    (bytes : List UInt8) :
    (inMemory path physicalLocation bytes).text files =
      (inMemory path physicalLocation bytes).text other := rfl

end Resource

end SchemaPlan
