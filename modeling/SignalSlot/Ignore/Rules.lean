import SignalSlot.FileTree
import SignalSlot.Ignore.Glob
import SignalSlot.Text.Blank

set_option autoImplicit false

/-!
# Ignore files

A line of an ignore file names paths below the directory of the file.  The last
line that matches a path decides; a line that starts with `!` takes the path in
again.
-/

namespace SignalSlot.Ignore

/-- What the rules say about a path. -/
inductive Verdict where
  /-- Nothing. -/
  | silent
  /-- The path is left out. -/
  | ignored
  /-- The path is taken in. -/
  | included
  deriving DecidableEq, Repr, Inhabited

/-- The first verdict unless it says nothing. -/
def Verdict.or : Verdict → Verdict → Verdict
  | .silent, v => v
  | v, _ => v

/-- One line of an ignore file. -/
structure Rule where
  glob : List Glob
  /-- Whether matching paths are taken in again. -/
  includes : Bool
  /-- Whether only directories match. -/
  directoriesOnly : Bool
  deriving Repr, Inhabited

namespace Rule

/-- Whether a text ends with another one. -/
def endsWith (suffix text : List Char) : Bool := suffix.isSuffixOf text

/-- The glob of a pattern: without a slash in it, it matches in every directory below. -/
def patternText (anchored : Bool) (pattern : List Char) : List Char :=
  let free := !anchored && !pattern.contains '/' && pattern != "**".toList
  let pattern := if free then "**/".toList ++ pattern else pattern
  if endsWith "/**".toList pattern then pattern ++ "/*".toList else pattern

/-- Takes a slash off the end, and the backslash that escaped it. -/
def dropLastSlash (pattern : List Char) : Bool × List Char :=
  match pattern.reverse with
  | '/' :: '\\' :: rest => (true, rest.reverse)
  | '/' :: rest => (true, rest.reverse)
  | _ => (false, pattern)

/-- Reads a line; comments, blank lines and patterns that are no globs give no rule. -/
def parse? (line : List Char) : Option Rule :=
  if line.head? = some '#' then none
  else
    let line := if endsWith "\\ ".toList line then line else Text.trimRight line
    if line.isEmpty then none
    else
      let (includes, anchored, pattern) :=
        match line with
        | '\\' :: '!' :: rest => (false, false, '!' :: rest)
        | '\\' :: '#' :: rest => (false, false, '#' :: rest)
        | '!' :: '/' :: rest => (true, true, rest)
        | '!' :: rest => (true, false, rest)
        | '/' :: rest => (false, true, rest)
        | rest => (false, false, rest)
      let (directoriesOnly, pattern) := dropLastSlash pattern
      (Glob.parse? (patternText anchored pattern)).map fun glob =>
        ⟨glob, includes, directoriesOnly⟩

/-- What a rule says about a relative path. -/
def verdict (r : Rule) (path : List UInt8) (isDirectory : Bool) : Verdict :=
  if (r.directoriesOnly && !isDirectory) || !Glob.accepts r.glob path then .silent
  else if r.includes then .included
  else .ignored

end Rule

/-- Splits bytes into lines; the last one is what follows the last line break. -/
def splitLines (bytes : List UInt8) : List (List UInt8) :=
  match bytes with
  | [] => [[]]
  | b :: rest =>
    match splitLines rest with
    | line :: lines => if b = 0x0A then [] :: line :: lines else (b :: line) :: lines
    | [] => [[b]]

/-- Drops a carriage return at the end of a line. -/
def dropReturn (line : List UInt8) : List UInt8 :=
  match line.reverse with
  | 0x0D :: rest => rest.reverse
  | _ => line

/-- The lines without their breaks; a carriage return belongs to a break only in front of one. -/
def dropReturns : List (List UInt8) → List (List UInt8)
  | [] => []
  | [last] => [last]
  | line :: rest => dropReturn line :: dropReturns rest

/-- The lines of a file up to the first that is no text. -/
def textLines (content : ByteArray) : List (List Char) :=
  let lines := (dropReturns (splitLines content.toList)).map fun line =>
    (String.fromUTF8? ⟨line.toArray⟩).map String.toList
  (lines.takeWhile Option.isSome).filterMap id

/-- The first line of a file, if it has one and that is a text. -/
def firstLine? (content : ByteArray) : Option (List Char) :=
  if content.isEmpty then none else (textLines content).head?

/-- Drops byte-order marks in front of the first line. -/
def dropMarks : List (List Char) → List (List Char)
  | first :: rest => first.dropWhile (· == '\uFEFF') :: rest
  | [] => []

/-- The rules of an ignore file; it gives none when one of its globs nests too deep. -/
def rulesOf (content : ByteArray) : List Rule :=
  let rules := (dropMarks (textLines content)).filterMap Rule.parse?
  if rules.all fun r => Glob.isShallow r.glob then rules else []

/-- What a list of rules says about a relative path: the last that speaks decides. -/
def verdictOf (rules : List Rule) (path : List Char) (isDirectory : Bool) : Verdict :=
  let bytes := Text.bytes (String.ofList path)
  rules.foldr (fun r below => below.or (r.verdict bytes isDirectory)) .silent

end SignalSlot.Ignore
