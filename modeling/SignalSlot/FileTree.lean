set_option autoImplicit false

/-!
# File trees

A tree of directories and files as a value, and looking up paths in it.  Paths
are texts with `/` between their components; a path that does not start with `/`
is taken from a working directory.  Positions are the components from the top.
-/

namespace SignalSlot

/-- A file with its bytes, or a directory with its entries. -/
inductive FileTree where
  | file (content : ByteArray)
  | directory (entries : List (String × FileTree))
  deriving Inhabited

/-- Why a file cannot be read as a text. -/
inductive ReadError where
  | notFound
  | isADirectory
  | notADirectory
  | notText
  deriving DecidableEq, Repr, Inhabited

/-- The text of a reason. -/
def ReadError.message : ReadError → String
  | .notFound => "No such file or directory (os error 2)"
  | .isADirectory => "Is a directory (os error 21)"
  | .notADirectory => "Not a directory (os error 20)"
  | .notText => "stream did not contain valid UTF-8"

namespace FileTree

/-- A position in a tree: the names from the top down. -/
abbrev Position := List String

/-- The entries of a directory. -/
def entries : FileTree → List (String × FileTree)
  | .directory es => es
  | .file _ => []

/-- The node at a position. -/
def at? : FileTree → Position → Option FileTree
  | t, [] => some t
  | .file _, _ :: _ => none
  | .directory es, name :: rest =>
    match es.lookup name with
    | some t => t.at? rest
    | none => none

/-- Whether a directory stands at a position. -/
def isDirectory (t : FileTree) (p : Position) : Bool :=
  match t.at? p with
  | some (.directory _) => true
  | _ => false

/-- The bytes of the file at a position. -/
def contentAt? (t : FileTree) (p : Position) : Option ByteArray :=
  match t.at? p with
  | some (.file content) => some content
  | _ => none

/-! ## Paths -/

/-- The components of a path; a slash at its end asks for a directory, as `.` does. -/
def components (path : String) : List String :=
  let parts := path.splitOn "/"
  let names := parts.filter (· ≠ "")
  if parts.getLast? = some "" then names ++ ["."] else names

/-- Puts a relative path behind the path of a directory. -/
def join (directory path : String) : String :=
  if directory.isEmpty then path
  else if directory.toList.getLast? = some '/' then directory ++ path
  else directory ++ "/" ++ path

/-- Follows components from a position; every step but the last starts in a directory. -/
def follow (t : FileTree) : Position → List String → Except ReadError Position
  | p, [] => .ok p
  | p, name :: rest =>
    match t.at? p with
    | some (.directory es) =>
      if name = "." then t.follow p rest
      else if name = ".." then t.follow p.dropLast rest
      else if (es.lookup name).isSome then t.follow (p ++ [name]) rest
      else .error .notFound
    | some (.file _) => .error .notADirectory
    | none => .error .notFound

/-- The position of a path, taken from a working directory. -/
def locate (t : FileTree) (working : Position) (path : String) : Except ReadError Position :=
  if path.isEmpty then .error .notFound
  else t.follow (if path.toList.head? = some '/' then [] else working) (components path)

/-- Reads a file as a text. -/
def readText (t : FileTree) (working : Position) (path : String) : Except ReadError String := do
  let p ← t.locate working path
  match t.at? p with
  | some (.file content) =>
    match String.fromUTF8? content with
    | some text => .ok text
    | none => .error .notText
  | some (.directory _) => .error .isADirectory
  | none => .error .notFound

/-- The bytes of the file that a path leads to. -/
def contentOf? (t : FileTree) (working : Position) (path : String) : Option ByteArray :=
  match t.locate working path with
  | .ok p => t.contentAt? p
  | .error _ => none

/-- Whether a path leads to a file. -/
def isFilePath (t : FileTree) (working : Position) (path : String) : Bool :=
  (t.contentOf? working path).isSome

/-- The position of a path that leads to a directory. -/
def directoryPath? (t : FileTree) (working : Position) (path : String) : Option Position :=
  match t.locate working path with
  | .ok p => if t.isDirectory p then some p else none
  | .error _ => none

/-! ## Making trees -/

/-- Puts a node at a position; directories on the way are made. -/
def insert (node : FileTree) : Position → FileTree → FileTree
  | [], _ => node
  | name :: rest, t =>
    let es := t.entries
    let below := insert node rest ((es.lookup name).getD (.directory []))
    if (es.lookup name).isSome then
      .directory (es.map fun (k, v) => if k = name then (k, below) else (k, v))
    else .directory (es ++ [(name, below)])

end FileTree

end SignalSlot
