set_option autoImplicit false

/-!
# Arguments

Arguments are read from left to right and the first that is wrong, or asks for
the version or for help, decides.  Options may stand between and behind paths, and `--` ends
them.
-/

namespace SignalSlot.CommandLine

/-- The form of the report. -/
inductive Format where
  | json
  | text
  deriving DecidableEq, Repr, Inhabited

/-- What the arguments ask for. -/
structure Options where
  paths : List String := []
  config : Option String := none
  format : Format := .json
  verbose : Bool := false
  deriving DecidableEq, Repr, Inhabited

/-- Why no report is made. -/
inductive Refusal where
  /-- The version is asked for. -/
  | version
  /-- An explanation of the arguments is asked for. -/
  | help
  /-- The arguments are wrong. -/
  | usage
  deriving DecidableEq, Repr, Inhabited

/-- The arguments read so far; an option that was given may not be given again. -/
structure Draft where
  /-- The paths, last first. -/
  paths : List String := []
  config : Option String := none
  format : Option Format := none
  verbose : Bool := false
  deriving DecidableEq, Repr, Inhabited

namespace Draft

/-- Adds a path, which may not be empty. -/
def addPath (d : Draft) (path : String) : Except Refusal Draft :=
  if path.isEmpty then .error .usage else .ok { d with paths := path :: d.paths }

/-- Sets the configuration file. -/
def setConfig (d : Draft) (path : String) : Except Refusal Draft :=
  if path.isEmpty || d.config.isSome then .error .usage else .ok { d with config := some path }

/-- Sets the form of the report. -/
def setFormat (d : Draft) (name : String) : Except Refusal Draft :=
  let set (f : Format) : Except Refusal Draft :=
    if d.format.isSome then .error .usage else .ok { d with format := some f }
  match name with
  | "json" => set .json
  | "text" => set .text
  | _ => .error .usage

/-- Sets the flag. -/
def setVerbose (d : Draft) : Except Refusal Draft :=
  if d.verbose then .error .usage else .ok { d with verbose := true }

/-- Reads a cluster of one-letter flags. -/
def setFlags (d : Draft) : List Char → Except Refusal Draft
  | [] => .ok d
  | 'v' :: rest => do
    let d ← d.setVerbose
    d.setFlags rest
  | 'V' :: _ => .error .version
  | 'h' :: _ => .error .help
  | _ => .error .usage

/-- All that was read, provided that there is a path. -/
def finish (d : Draft) : Except Refusal Options :=
  if d.paths.isEmpty then .error .usage
  else .ok ⟨d.paths.reverse, d.config, d.format.getD .json, d.verbose⟩

end Draft

/-- An argument, by its form. -/
inductive Argument where
  /-- A path. -/
  | path (text : String)
  /-- The end of the options. -/
  | endOfOptions
  /-- A cluster of one-letter flags. -/
  | flags (letters : List Char)
  /-- An option by its name, with the value after an equals sign if there is one. -/
  | option (name : String) (value : Option String)
  deriving DecidableEq, Repr, Inhabited

namespace Argument

/-- The form of an argument in front of the end of the options; a single dash is a path. -/
def ofText (text : String) : Argument :=
  match text.toList with
  | ['-', '-'] => .endOfOptions
  | '-' :: '-' :: rest =>
    let name := rest.takeWhile (· ≠ '=')
    match rest.drop name.length with
    | '=' :: value => .option (String.ofList name) (some (String.ofList value))
    | _ => .option (String.ofList name) none
  | '-' :: c :: rest => .flags (c :: rest)
  | _ => .path text

/-- Whether an argument can be the value of the option in front of it. -/
def isValue (text : String) : Bool :=
  match ofText text with
  | .path _ => true
  | _ => false

end Argument

/-- An option that takes a value. -/
inductive Valued where
  | config
  | format
  deriving DecidableEq, Repr, Inhabited

/-- Gives an option its value. -/
def Valued.set (option : Valued) (d : Draft) (value : String) : Except Refusal Draft :=
  match option with
  | .config => d.setConfig value
  | .format => d.setFormat value

/-- Reads arguments into a draft; the first one is a value if an option waits for it. -/
def readArguments : Option Valued → Draft → List String → Except Refusal Draft
  | none, d, [] => .ok d
  | some _, _, [] => .error .usage
  | some option, d, text :: rest =>
    if Argument.isValue text then do
      let d ← option.set d text
      readArguments none d rest
    else .error .usage
  | none, d, text :: rest =>
    match Argument.ofText text with
    | .path path => do
      let d ← d.addPath path
      readArguments none d rest
    | .endOfOptions => rest.foldlM Draft.addPath d
    | .flags letters => do
      let d ← d.setFlags letters
      readArguments none d rest
    | .option "config" none => readArguments (some .config) d rest
    | .option "config" (some value) => do
      let d ← d.setConfig value
      readArguments none d rest
    | .option "format" none => readArguments (some .format) d rest
    | .option "format" (some value) => do
      let d ← d.setFormat value
      readArguments none d rest
    | .option "verbose" none => do
      let d ← d.setVerbose
      readArguments none d rest
    | .option "version" none => .error .version
    | .option "help" none => .error .help
    | .option _ _ => .error .usage

/-- Reads the arguments. -/
def Options.parse (arguments : List String) : Except Refusal Options := do
  let d ← readArguments none {} arguments
  d.finish

end SignalSlot.CommandLine
