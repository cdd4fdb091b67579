import SignalSlot.Ignore.Rules
import SignalSlot.Text.Affix

set_option autoImplicit false

/-!
# Ignored paths of a tree

Every directory above an entry may hold ignore files, and of these the nearest
one that speaks decides.  Version-control ignore files count only inside a
repository: from the entry up to the directory that holds `.git` or `.jj`, and
only when there is such a directory.  An entry that no file speaks about is left
out when its name starts with a dot.

Rules see a path relative to the directory of their file.  Below the directory
where a walk starts, paths are texts that begin as that directory was written,
and a path is made relative by taking the text of the directory off its front.
Directories above the start are asked about the path from the top of the tree.
-/

namespace SignalSlot.Ignore

open FileTree

/-! ## Texts of paths -/

/-- Takes a beginning off a text that starts with it. -/
def dropFront (front text : List Char) : List Char := (Text.after? front text).getD text

/-- Takes `./` off the front of a path, once. -/
def dropHere (path : List Char) : List Char := dropFront ['.', '/'] path

/-- Takes a slash off the front of a path. -/
def dropSlash (path : List Char) : List Char := dropFront ['/'] path

/-- Whether a path is `.`, however it is written. -/
def isHere (path : List Char) : Bool :=
  match (String.ofList path).splitOn "/" with
  | first :: rest => first == "." && rest.all fun name => name == "." || name == ""
  | [] => false

/-- The path of a position from the top of the tree. -/
def fromTop (p : Position) : List Char := '/' :: ("/".intercalate p).toList

/-- The directories above a position, the nearest first. -/
def ancestors (p : Position) : List Position := (List.range p.length).reverse.map p.take

/-! ## Layers -/

/-- The ignore files of one directory. -/
structure Layer where
  /-- The text that paths below the directory start with. -/
  root : List Char
  /-- The rules that always count. -/
  always : List Rule
  /-- The rules of the repository that are kept in it. -/
  shared : List Rule
  /-- The rules of the repository that are kept beside it. -/
  excluded : List Rule
  /-- Whether the directory is the top of a repository. -/
  isRepository : Bool
  deriving Inhabited

/-- The rules of a file, if there is one. -/
def rulesAt (t : FileTree) (p : Position) : List Rule := ((t.contentAt? p).map rulesOf).getD []

/--
The directory of version-control data that a file `.git` leads to.  The file
names a directory, and the file `commondir` in there the directory that counts;
that name is relative when it starts with a dot.
-/
def commonDirectory? (t : FileTree) (working : Position) (content : ByteArray) :
    Option String := do
  let own ← Text.after? "gitdir: ".toList (← firstLine? content)
  let own := String.ofList own
  let common ← firstLine? (← t.contentOf? working (join own "commondir"))
  some (if common.head? = some '.' then join own (String.ofList common) else String.ofList common)

/-- The rules kept beside the repository of a directory. -/
def excludedAt (t : FileTree) (working p : Position) : List Rule :=
  match t.at? (p ++ [".git"]) with
  | some (.file content) =>
    let file := (commonDirectory? t working content).bind fun directory =>
      t.contentOf? working (join directory "info/exclude")
    (file.map rulesOf).getD []
  | _ => rulesAt t (p ++ [".git", "info", "exclude"])

/-- Whether a directory is the top of a repository. -/
def holdsRepository (t : FileTree) (p : Position) : Bool :=
  [".git", ".jj"].any fun name => (t.at? (p ++ [name])).isSome

/-- The ignore files of the directory at a position, with the text of its path. -/
def Layer.ofDirectory (t : FileTree) (working p : Position) (path : List Char) : Layer where
  root := dropHere path
  always := rulesAt t (p ++ [".ignore"])
  shared := rulesAt t (p ++ [".gitignore"])
  excluded := excludedAt t working p
  isRepository := holdsRepository t p

/-- The path that the rules of a layer see; a single name is never taken for the directory. -/
def Layer.relative (layer : Layer) (path : List Char) : List Char :=
  let path := dropHere path
  if isHere layer.root || !path.contains '/' then path
  else ((Text.after? layer.root path).map dropSlash).getD path

/-! ## Verdicts -/

/-- What a walk knows in a directory: where it started, and the ignore files around. -/
structure Scope where
  /-- The start of the walk as it was written. -/
  start : List Char
  /-- The position of the start. -/
  base : Position
  /-- The layers from the directory up to the start. -/
  near : List Layer
  /-- The layers above the start, the nearest first. -/
  far : List Layer
  deriving Inhabited

namespace Scope

/-- The scope above the start of a walk. -/
def outside (t : FileTree) (working : Position) (start : List Char) (base : Position) : Scope where
  start
  base
  near := []
  far := (ancestors base).map fun p => Layer.ofDirectory t working p (fromTop p)

/-- The scope in a directory one step below. -/
def enter (scope : Scope) (layer : Layer) : Scope := { scope with near := layer :: scope.near }

/-- The path of an entry from the top of the tree. -/
def pathFromTop (scope : Scope) (path : List Char) : List Char :=
  let below :=
    if isHere scope.start then path
    else dropSlash (dropFront (dropHere scope.start) path)
  if below.head? = some '/' then below
  else if scope.base.isEmpty then '/' :: below
  else fromTop scope.base ++ '/' :: below

/-- The layers around an entry, the nearest first, each with the path that its rules see. -/
def layers (scope : Scope) (path : List Char) : List (Layer × List Char) :=
  let path := dropHere path
  let top := scope.pathFromTop path
  scope.near.map (fun layer => (layer, layer.relative path)) ++
    scope.far.map fun layer => (layer, layer.relative top)

end Scope

/-- The nearest verdict of some of the rules of layers. -/
def nearest (rules : Layer → List Rule) (isDirectory : Bool)
    (layers : List (Layer × List Char)) : Verdict :=
  layers.foldr
    (fun (layer, path) farther => (verdictOf (rules layer) path isDirectory).or farther) .silent

/-- The layers up to the top of the repository, if there is one. -/
def inRepository (layers : List (Layer × List Char)) : List (Layer × List Char) :=
  if layers.any (fun (layer, _) => layer.isRepository) then
    let inside := layers.takeWhile fun (layer, _) => !layer.isRepository
    layers.take (inside.length + 1)
  else []

/-- What the ignore files around say about the entry of a path. -/
def Scope.verdict (scope : Scope) (path : List Char) (isDirectory : Bool) : Verdict :=
  let layers := scope.layers path
  let repository := inRepository layers
  (nearest Layer.always isDirectory layers).or <|
    (nearest Layer.shared isDirectory repository).or <|
      nearest Layer.excluded isDirectory repository

/-- Whether a name is hidden. -/
def isHidden (name : String) : Bool := name.toList.head? == some '.'

/-- Whether a walk leaves out the entry of a name and a path. -/
def Scope.leavesOut (scope : Scope) (name : String) (path : List Char) (isDirectory : Bool) :
    Bool :=
  match scope.verdict path isDirectory with
  | .ignored => true
  | .included => false
  | .silent => isHidden name

end SignalSlot.Ignore
