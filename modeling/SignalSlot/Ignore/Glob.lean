import SignalSlot.Text.Bytes

set_option autoImplicit false

/-!
# Globs

Patterns for relative paths.  A `*` and a `?` match bytes other than a slash,
`**` as a whole component matches any number of components, `[…]` is a class,
`{a,b}` offers alternatives and a backslash takes the next character as it is.
A bracket that opens a class which is not closed stands for itself.

Globs match bytes.  A character outside ASCII therefore takes as many `?` as it
has bytes, and in a class each of its bytes is a member of its own.
-/

namespace SignalSlot.Ignore

/-- A part of a glob. -/
inductive Glob where
  /-- A byte as it is. -/
  | byte (b : UInt8)
  /-- Any byte but a slash. -/
  | one
  /-- Any number of bytes but slashes. -/
  | many
  /-- A byte inside, or outside, of ranges. -/
  | range (negated : Bool) (ranges : List (UInt8 × UInt8))
  /-- Any number of components in front. -/
  | leading
  /-- Any number of components between slashes. -/
  | inner
  /-- A slash and everything behind it. -/
  | trailing
  /-- One of several globs; without any, it matches where nothing stands. -/
  | choice (branches : List (List Glob))
  deriving Repr, Inhabited

namespace Glob

/-! ## Classes -/

/-- A range of characters. -/
abbrev Span := Char × Char

/--
The ranges of bytes that a range of characters stands for: the last byte of its
lower end and the first byte of its upper end are the ends of a range, and every
other byte of the two is a range of its own.
-/
def Span.bytes (span : Span) : List (UInt8 × UInt8) :=
  let low := String.utf8EncodeChar span.1
  let high := String.utf8EncodeChar span.2
  if span.1 = span.2 then low.map fun b => (b, b)
  else
    match low.reverse, high with
    | last :: before, first :: behind =>
      (last, first) :: (before ++ behind).map fun b => (b, b)
    | _, _ => []

/-- A class while it is being read. -/
structure Class where
  /-- The ranges read so far, the last one first. -/
  spans : List Span := []
  /-- Whether a `-` waits for the end of its range. -/
  pending : Bool := false
  /-- Whether no character was read yet. -/
  first : Bool := true
  deriving Repr, Inhabited

/-- Sets the upper end of the last range, unless it lies below the lower end. -/
def Class.extend? (k : Class) (c : Char) : Option Class :=
  match k.spans with
  | (low, _) :: rest => if low ≤ c then some ⟨(low, c) :: rest, false, false⟩ else none
  | [] => none

/-- Adds a character. -/
def Class.add (k : Class) (c : Char) : Class := ⟨(c, c) :: k.spans, false, false⟩

/-- The ranges of a class that is complete; a `-` at its end stands for itself. -/
def Class.close (k : Class) : List Span :=
  if k.pending then ('-', '-') :: k.spans else k.spans

/-- How the reading of a class ends. -/
inductive ClassEnd where
  /-- A bracket closes the class. -/
  | closed (spans : List Span) (rest : List Char)
  /-- No bracket closes the class. -/
  | unclosed
  /-- A range ends below its start. -/
  | invalid
  deriving Repr, Inhabited

/-- Reads a class after its opening bracket and the mark that negates it. -/
def readClass : Class → List Char → ClassEnd
  | _, [] => .unclosed
  | k, c :: rest =>
    if c = ']' ∧ !k.first then .closed k.close rest
    else if k.pending then
      match k.extend? c with
      | some k => readClass k rest
      | none => .invalid
    else if c = '-' ∧ !k.first then readClass { k with pending := true } rest
    else readClass (k.add c) rest

/-! ## Reading -/

/-- The parts of a character. -/
def ofChar (c : Char) : List Glob :=
  (String.utf8EncodeChar c).map .byte

/-- Whether a part matches only where nothing stands. -/
def isBlank : Glob → Bool
  | .choice [] => true
  | _ => false

/-- The globs of the branches read so far, the innermost group first. -/
structure Draft where
  /-- The parts of the current branch, last first. -/
  parts : List Glob := []
  /-- The branches that are complete, with the parts in front of the group. -/
  groups : List (List (List Glob) × List Glob) := []
  /-- The character read last. -/
  previous : Option Char := none
  /-- Whether brackets stand for themselves, since a class is not closed. -/
  plainBrackets : Bool := false
  deriving Repr, Inhabited

/-- Adds parts to the current branch. -/
def Draft.push (d : Draft) (parts : List Glob) : Draft :=
  { d with parts := parts.reverse ++ d.parts }

/-- Whether the branch is inside a group. -/
def Draft.inGroup (d : Draft) : Bool := !d.groups.isEmpty

/-- Two stars that are no component of their own. -/
def Draft.plainStars (d : Draft) : Draft := d.push [.many, .many]

/-- Puts a part for two stars in place of the slash in front of them. -/
def Draft.replaceSlash (d : Draft) (part : Glob) : Draft :=
  match d.parts with
  | .leading :: _ => d
  | .trailing :: _ => d
  | _ :: rest => { d with parts := part :: rest }
  | [] => { d with parts := [part] }

/-- Takes two stars that were just read, and the slash behind them if it belongs to them. -/
def Draft.stars (d : Draft) (rest : List Char) : Draft × List Char :=
  let slashBefore := d.previous == some '/' ||
    (d.inGroup && (d.previous == some ',' || d.previous == some '{'))
  if d.parts.isEmpty then
    match rest with
    | [] => (d.push [.leading], [])
    | '/' :: rest => ({ d.push [.leading] with previous := some '/' }, rest)
    | rest => ({ d.plainStars with previous := some '*' }, rest)
  else if !slashBefore then ({ d.plainStars with previous := some '*' }, rest)
  else
    match rest with
    | [] => (d.replaceSlash .trailing, [])
    | '/' :: rest => ({ d.replaceSlash .inner with previous := some '/' }, rest)
    | c :: rest =>
      if d.inGroup && (c == ',' || c == '}') then
        ({ d.replaceSlash .trailing with previous := some '*' }, c :: rest)
      else ({ d.plainStars with previous := some '*' }, c :: rest)

/-- Starts a group. -/
def Draft.openGroup (d : Draft) : Draft :=
  { d with parts := [], groups := ([], d.parts) :: d.groups }

/-- Ends the current group; branches that match only nothing do not count. -/
def Draft.closeGroup? (d : Draft) : Option Draft :=
  match d.groups with
  | (branches, before) :: outer =>
    let branches := (d.parts.reverse :: branches).reverse.filter (!·.all isBlank)
    some { d with parts := .choice branches :: before, groups := outer }
  | [] => none

/-- Starts the next branch of the current group. -/
def Draft.nextBranch? (d : Draft) : Option Draft :=
  match d.groups with
  | (branches, before) :: outer =>
    some { d with parts := [], groups := (d.parts.reverse :: branches, before) :: outer }
  | [] => none

/-- Reads characters into a draft; the bound is the number of characters. -/
def readUpTo : Nat → Draft → List Char → Option Draft
  | _, d, [] => some d
  | 0, _, _ :: _ => none
  | bound + 1, d, c :: rest =>
    let next (d : Draft) (c : Char) (rest : List Char) : Option Draft :=
      readUpTo bound { d with previous := some c } rest
    match c with
    | '?' => next (d.push [.one]) c rest
    | '*' =>
      match rest with
      | '*' :: rest =>
        let (d, rest) := d.stars rest
        readUpTo bound d rest
      | _ => next (d.push [.many]) c rest
    | '[' =>
      if d.plainBrackets then next (d.push (ofChar c)) c rest
      else
        let (negated, body) :=
          match rest with
          | '!' :: body => (true, body)
          | '^' :: body => (true, body)
          | body => (false, body)
        match readClass {} body with
        | .closed spans rest => next (d.push [.range negated (spans.flatMap Span.bytes)]) ']' rest
        | .unclosed => next { d.push (ofChar c) with plainBrackets := true } c rest
        | .invalid => none
    | '{' => next d.openGroup c rest
    | '}' => d.closeGroup?.bind fun d => next d c rest
    | ',' =>
      match d.nextBranch? with
      | some d => next d c rest
      | none => next (d.push (ofChar c)) c rest
    | '\\' =>
      match rest with
      | c :: rest => next (d.push (ofChar c)) c rest
      | [] => none
    | c => next (d.push (ofChar c)) c rest

/-- The glob of a text, unless a group or an escape is not complete or a range is invalid. -/
def parse? (text : List Char) : Option (List Glob) :=
  match readUpTo text.length {} text with
  | some d => if d.inGroup then none else some d.parts.reverse
  | none => none

/-! ## Nesting -/

/-- How many things in a row a part stands for. -/
def width : Glob → Nat
  | .trailing => 2
  | .choice [] => 0
  | _ => 1

mutual

/-- How deep classes, repetitions, groups and rows nest in a part. -/
def depth : Glob → Nat
  | .byte _ => 0
  | .one => 1
  | .many => 2
  | .range _ ranges => if ranges.length ≤ 1 then 1 else 2
  | .leading => 4
  | .inner => 4
  | .trailing => 1
  | .choice branches =>
    match branches.length with
    | 0 => 0
    | 1 => 1 + deepestBranch branches
    | _ => 2 + deepestBranch branches

/-- The depth of the deepest of several parts. -/
def deepest : List Glob → Nat
  | [] => 0
  | part :: rest => max (depth part) (deepest rest)

/-- The depth of the deepest of several branches; several things in a row are a level. -/
def deepestBranch : List (List Glob) → Nat
  | [] => 0
  | branch :: rest =>
    let row := if (branch.map width).sum = 1 then 0 else 1
    max (row + deepest branch) (deepestBranch rest)

end

/-- How deep a glob may nest, itself counted. -/
def maxDepth : Nat := 250

/-- Whether a glob nests no deeper than it may. -/
def isShallow (glob : List Glob) : Bool := 1 + deepest glob ≤ maxDepth

/-! ## Matching -/

/-- The byte of a slash. -/
def slash : UInt8 := 0x2F

/--
The places of a text that a match may have come to: a mark for every byte, at the
place in front of it, and one for the end.
-/
abbrev Marks := List Bool

namespace Marks

/-- Only the place in front of the first byte. -/
def start (text : List UInt8) : Marks := true :: text.map fun _ => false

/-- The places one byte on, if the byte passes a test. -/
def step (test : UInt8 → Bool) (text : List UInt8) (marks : Marks) : Marks :=
  false :: List.zipWith (fun m b => m && test b) marks text

/-- The places any number of bytes on that pass a test; `carried` marks the first place too. -/
def spread (test : UInt8 → Bool) (carried : Bool) : List UInt8 → Marks → Marks
  | _, [] => []
  | [], m :: _ => [m || carried]
  | b :: text, m :: marks =>
    let here := m || carried
    here :: spread test (here && test b) text marks

/-- The places any number of bytes on. -/
def onward (text : List UInt8) (marks : Marks) : Marks := spread (fun _ => true) false text marks

/-- The places behind a slash. -/
def behindSlash (text : List UInt8) (marks : Marks) : Marks := step (· == slash) text marks

/-- The places of two sets. -/
def union (a b : Marks) : Marks := List.zipWith (· || ·) a b

end Marks

/-- Whether a byte lies in one of several ranges. -/
def inRanges (ranges : List (UInt8 × UInt8)) (b : UInt8) : Bool :=
  ranges.any fun (low, high) => low ≤ b && b ≤ high

mutual

/-- The places a match has come to after a part. -/
def advance (text : List UInt8) : Glob → Marks → Marks
  | .byte b, marks => marks.step (· == b) text
  | .one, marks => marks.step (· != slash) text
  | .many, marks => marks.spread (· != slash) false text
  | .range negated ranges, marks => marks.step (fun b => inRanges ranges b != negated) text
  | .leading, marks => marks.union ((marks.onward text).behindSlash text)
  | .inner, marks =>
    let opened := marks.behindSlash text
    opened.union ((opened.onward text).behindSlash text)
  | .trailing, marks => (marks.behindSlash text).onward text
  | .choice branches, marks => if branches.isEmpty then marks else advanceAny text branches marks

/-- The places a match has come to after all parts of a glob. -/
def advanceAll (text : List UInt8) : List Glob → Marks → Marks
  | [], marks => marks
  | part :: rest, marks => advanceAll text rest (advance text part marks)

/-- The places a match has come to after one of several globs. -/
def advanceAny (text : List UInt8) : List (List Glob) → Marks → Marks
  | [], marks => marks.map fun _ => false
  | branch :: rest, marks => (advanceAll text branch marks).union (advanceAny text rest marks)

end

/-- Whether a glob matches a whole text; two stars alone match everything. -/
def accepts (glob : List Glob) (text : List UInt8) : Bool :=
  match glob with
  | [.leading] => true
  | glob => ((advanceAll text glob (Marks.start text)).getLast?).getD false

end Glob

end SignalSlot.Ignore
