import SignalSlot.Config.Text
import SignalSlot.FileTree
import SignalSlot.Unit.Document

set_option autoImplicit false

/-!
# Loading files

Units and configurations are read from a file tree.  A unit that cannot be
loaded does not affect the others.
-/

namespace SignalSlot

/-- Why a file could not be loaded. -/
inductive LoadError where
  /-- The file could not be read. -/
  | read (path : String) (reason : ReadError)
  /-- The file is no configuration. -/
  | config (path : String)
  /-- The file is no unit. -/
  | unit (path : String) (reason : DecodeError)
  /-- A unit declares a class twice. -/
  | duplicateClass (reason : DuplicateClass)
  deriving DecidableEq, Repr, Inhabited

namespace LoadError

/-- The text of an error. -/
def message : LoadError → String
  | .read path reason => "failed to read " ++ path ++ ": " ++ reason.message
  | .config path => "invalid configuration in " ++ path
  | .unit path reason =>
    "invalid unit file " ++ path ++ reason.message?.elim "" fun text => ": " ++ text
  | .duplicateClass reason => reason.message

end LoadError

/-- What the program finds around it: files, a working directory and settings. -/
structure Surroundings where
  /-- All files. -/
  tree : FileTree
  /-- The working directory. -/
  working : FileTree.Position := []
  /-- The home directory. -/
  home : Option String := none
  /-- The directory of configurations, if one is set. -/
  configHome : Option String := none
  /-- Which log events are asked for, if this is set. -/
  logFilter : Option String := none
  deriving Inhabited

namespace Surroundings

/-- Reads a file. -/
def read (s : Surroundings) (path : String) : Except LoadError String :=
  (s.tree.readText s.working path).mapError (.read path)

/-! ## Units -/

/-- The unit of a text that was found at a path. -/
def unitOfText (path text : String) : Except LoadError BoundUnit := do
  let file ← (UnitFile.parse text).mapError (.unit path)
  file.bind.mapError .duplicateClass

/-- Loads a unit. -/
def loadUnit (s : Surroundings) (path : String) : Except LoadError BoundUnit := do
  let text ← s.read path
  unitOfText path text

/-- The uses of every unit of a list of paths, in order. -/
def resolveFiles (s : Surroundings) (config : Config) (paths : List String) :
    List (Except LoadError (List UseRecord)) :=
  paths.map fun path => (s.loadUnit path).map fun unit => unit.resolve config

/-! ## Configurations -/

/-- Loads a configuration file. -/
def configFile (s : Surroundings) (path : String) : Except LoadError Config := do
  let text ← s.read path
  match Config.parse? text with
  | some config => .ok config
  | none => .error (.config path)

/-- The directory of user configurations; a relative setting does not count. -/
def userConfigHome? (s : Surroundings) : Option String :=
  match s.configHome with
  | some directory =>
    if directory.toList.head? = some '/' then some directory
    else s.home.map (FileTree.join · ".config")
  | none => s.home.map (FileTree.join · ".config")

/-- The path of the user's configuration. -/
def userConfigPath? (s : Surroundings) : Option String :=
  s.userConfigHome?.map fun directory => FileTree.join directory "slotref/config.toml"

/--
The configuration: the file that is asked for, else the user's file if there is
one, else the built-in values.
-/
def loadConfig (s : Surroundings) (explicit : Option String) : Except LoadError Config :=
  match explicit, s.userConfigPath? with
  | some path, _ => s.configFile path
  | none, some path =>
    if s.tree.isFilePath s.working path then s.configFile path else .ok .builtin
  | none, none => .ok .builtin

end Surroundings

end SignalSlot
