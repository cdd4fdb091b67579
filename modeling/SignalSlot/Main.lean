import SignalSlot.CommandLine.Run

set_option autoImplicit false

/-!
# The program

Everything that decides lies in `CommandLine.run`, which works on a file tree as
a value.  This file takes the part of the tree that a run can ask for from the
disk, runs, and writes what the run leaves behind.
-/

namespace SignalSlot.Program

open CommandLine

/-- The entries of a directory, or nothing if the path leads to none. -/
def listing? (path : String) : IO (Option (List String)) := do
  try
    let entries ← ((← IO.currentDir) / path).readDir
    pure (some (entries.toList.map (·.fileName)))
  catch _ => pure none

/-- The bytes of a file, or nothing if it cannot be read. -/
def bytes? (path : String) : IO (Option ByteArray) := do
  try
    let content ← IO.FS.readBinFile path
    pure (some content)
  catch _ => pure none

/-- Whether a walk reads the files of a name. -/
def isRead (name : String) : Bool :=
  UnitSearch.isUnitName name ||
    [".ignore", ".gitignore", ".git", "exclude", "commondir"].contains name

/-- Takes a directory or a file from the disk; files that no walk reads stay empty. -/
partial def take? (path : String) (whole : Bool) : IO (Option FileTree) := do
  match ← listing? path with
  | some names =>
    let mut entries := []
    for name in names do
      if let some node ← take? (FileTree.join path name) (isRead name) then
        entries := (name, node) :: entries
    pure (some (.directory entries))
  | none =>
    if whole then pure ((← bytes? path).map .file) else pure (some (.file .empty))

/-- The position of a path, with `.` and `..` taken away. -/
def positionOf (working : FileTree.Position) (path : String) : FileTree.Position :=
  let start := if path.toList.head? = some '/' then [] else working
  (FileTree.components path).foldl
    (fun p name => if name = "." then p else if name = ".." then p.dropLast else p ++ [name]) start

/-- The path of a position. -/
def pathOf (p : FileTree.Position) : String := "/" ++ "/".intercalate p

/-- Adds what stands at a position, unless there is nothing. -/
def add (t : FileTree) (p : FileTree.Position) : IO FileTree := do
  match ← take? (pathOf p) true with
  | some node => pure (FileTree.insert node p t)
  | none => pure t

/-- Adds the ignore files of the directories above a position, and the marks of repositories. -/
def addAbove (t : FileTree) (p : FileTree.Position) : IO FileTree := do
  let mut t := t
  for directory in Ignore.ancestors p do
    for mark in [".git", ".jj"] do
      if (← listing? (pathOf (directory ++ [mark]))).isSome then
        t := FileTree.insert (.directory []) (directory ++ [mark]) t
    for file in [[".ignore"], [".gitignore"], [".git"], [".jj"], [".git", "info", "exclude"]] do
      if let some content ← bytes? (pathOf (directory ++ file)) then
        t := FileTree.insert (.file content) (directory ++ file) t
  pure t

/-- The part of the disk that a run with options can ask for. -/
def surroundings (arguments : List String) : IO Surroundings := do
  let working := positionOf [] (toString (← IO.currentDir))
  let s : Surroundings :=
    { tree := FileTree.insert (.directory []) working (.directory []), working
      home := ← IO.getEnv "HOME", configHome := ← IO.getEnv "XDG_CONFIG_HOME"
      logFilter := ← IO.getEnv "RUST_LOG" }
  match Options.parse arguments with
  | .error _ => pure s
  | .ok options =>
    let config := options.config.toList ++ s.userConfigPath?.toList
    let mut t := s.tree
    for path in options.paths do
      t ← addAbove t (positionOf working path)
    for path in config ++ options.paths do
      t ← add t (positionOf working path)
    pure { s with tree := t }

end SignalSlot.Program

/-- Runs the command. -/
def main (arguments : List String) : IO UInt32 := do
  let outcome := SignalSlot.CommandLine.run (← SignalSlot.Program.surroundings arguments) arguments
  IO.print outcome.output
  for event in outcome.log do
    IO.eprintln event.message
  pure outcome.exitCode.toUInt32
