import SignalSlot.Ignore.Tree
import SignalSlot.Loading

set_option autoImplicit false

/-!
# Finding unit files

A path that leads to a directory stands for the files below it whose extension
is `json`, in the order of their components; entries that are hidden or ignored
are left out.  What is ignored is said by files in the tree; a list of the user's
own, outside of it, is not asked.  Every other path stands for itself.
-/

namespace SignalSlot

namespace UnitSearch

open FileTree

/-- The extension of a file name: what follows its last dot, if anything is in front. -/
def extension? (name : String) : Option String :=
  let cs := name.toList.reverse
  let after := cs.takeWhile (· ≠ '.')
  match cs.drop after.length with
  | '.' :: _ :: _ => some (String.ofList after.reverse)
  | _ => none

/-- Whether a file name is that of a unit. -/
def isUnitName (name : String) : Bool := extension? name == some "json"

/-- Orders lists of bytes like words of a dictionary. -/
def bytesLE : List UInt8 → List UInt8 → Bool
  | [], _ => true
  | _ :: _, [] => false
  | a :: s, b :: t => if a = b then bytesLE s t else a < b

/-- Orders paths component by component. -/
def pathLE : List String → List String → Bool
  | [], _ => true
  | _ :: _, [] => false
  | a :: s, b :: t => if a = b then pathLE s t else bytesLE (Text.bytes a) (Text.bytes b)

/-- The path of a way that starts at a directory. -/
def pathOf (start : String) (way : List String) : String :=
  if way.isEmpty then start else join start ("/".intercalate way)

/-- Whether a node is a directory. -/
def isDirectoryNode : FileTree → Bool
  | .directory _ => true
  | .file _ => false

/-- A walk through the tree: where relative paths start, and the start as it was written. -/
structure Walk where
  tree : FileTree
  working : Position
  start : String
  /-- The position of the start. -/
  base : Position

/-- The scope in the directory that a way leads to. -/
def Walk.enter (w : Walk) (scope : Ignore.Scope) (way : List String) : Ignore.Scope :=
  scope.enter <|
    Ignore.Layer.ofDirectory w.tree w.working (w.base ++ way) (pathOf w.start way).toList

mutual

/-- The unit files in a node of the tree, as ways from the start of the walk. -/
def Walk.below (w : Walk) (scope : Ignore.Scope) (way : List String) :
    FileTree → List (List String)
  | .file _ => if (way.getLast?.map isUnitName).getD false then [way] else []
  | .directory entries => Walk.belowAll w (w.enter scope way) way entries

/-- The unit files in the entries of a directory. -/
def Walk.belowAll (w : Walk) (scope : Ignore.Scope) (way : List String) :
    List (String × FileTree) → List (List String)
  | [] => []
  | (name, node) :: rest =>
    let path := pathOf w.start (way ++ [name])
    (if scope.leavesOut name path.toList (isDirectoryNode node) then []
      else Walk.below w scope (way ++ [name]) node) ++
      Walk.belowAll w scope way rest

end

/-- The unit files below the start of a walk, in order. -/
def Walk.unitFiles (w : Walk) : List String :=
  let scope := Ignore.Scope.outside w.tree w.working w.start.toList w.base
  let ways :=
    match w.tree.at? w.base with
    | some (.directory entries) => w.belowAll (w.enter scope []) [] entries
    | _ => []
  (ways.mergeSort pathLE).map (pathOf w.start)

/-- Whether a path is `-`, however it is written: it stands for the standard input. -/
def isStandardInput (path : String) : Bool :=
  match path.splitOn "/" with
  | first :: rest => first == "-" && rest.all fun name => name == "." || name == ""
  | [] => false

end UnitSearch

/-- The unit files that paths stand for; none are looked for on the standard input. -/
def Surroundings.unitFiles (s : Surroundings) (paths : List String) : List String :=
  paths.flatMap fun path =>
    match s.tree.directoryPath? s.working path with
    | some base =>
      if UnitSearch.isStandardInput path then []
      else UnitSearch.Walk.unitFiles ⟨s.tree, s.working, path, base⟩
    | none => [path]

end SignalSlot
