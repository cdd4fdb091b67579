import SignalSlot.Toml.Basic

set_option autoImplicit false

/-!
# Words of TOML texts

Blanks, comments, strings and keys.  Each function takes a text and gives what it
read together with the rest of the text, or nothing.
-/

namespace SignalSlot.Toml

/-! ## Characters -/

/-- A space or a tab. -/
def isBlank (c : Char) : Bool := c == ' ' || c == '\t'

/-- Whether a character may stand in a comment or a string: no control character but tab. -/
def isPlain (c : Char) : Bool := c == '\t' || (' ' ≤ c && c != '\x7f')

/-- Whether a character may stand in a bare key. -/
def isBare (c : Char) : Bool := c.isAlphanum || c == '_' || c == '-'

/-- Skips spaces and tabs. -/
def skipBlanks (s : List Char) : List Char := s.dropWhile isBlank

/-- The rest after a line break, if the text starts with one. -/
def lineBreak? : List Char → Option (List Char)
  | '\n' :: rest => some rest
  | '\r' :: '\n' :: rest => some rest
  | _ => none

/-- Skips a comment up to the end of its line. -/
def comment? : List Char → Option (List Char)
  | '#' :: rest =>
    let after := rest.dropWhile isPlain
    if after.isEmpty || (lineBreak? after).isSome then some after else none
  | s => some s

/-- Skips blanks and a comment and takes the line break, or stands at the end. -/
def endOfLine? (s : List Char) : Option (List Char) := do
  let s ← comment? (skipBlanks s)
  if s.isEmpty then some [] else lineBreak? s

/-- Skips blanks, comments and line breaks; `inComment` says that the text starts in a comment. -/
def skipLinesFrom? : Bool → List Char → Option (List Char)
  | _, [] => some []
  | _, '\n' :: rest => skipLinesFrom? false rest
  | _, '\r' :: '\n' :: rest => skipLinesFrom? false rest
  | true, c :: rest => if isPlain c then skipLinesFrom? true rest else none
  | false, c :: rest =>
    if isBlank c then skipLinesFrom? false rest
    else if c == '#' then skipLinesFrom? true rest
    else some (c :: rest)

/-- Skips blanks, comments and line breaks. -/
def skipLines? (s : List Char) : Option (List Char) := skipLinesFrom? false s

/-! ## Strings -/

/-- The value of a hexadecimal digit. -/
def hexDigit? (c : Char) : Option Nat :=
  if c.isDigit then some (c.toNat - '0'.toNat)
  else if 'a' ≤ c ∧ c ≤ 'f' then some (c.toNat - 'a'.toNat + 10)
  else if 'A' ≤ c ∧ c ≤ 'F' then some (c.toNat - 'A'.toNat + 10)
  else none

/-- The character whose code the first hexadecimal digits of a text give. -/
def codePoint? (count : Nat) (s : List Char) : Option Char := do
  let digits := s.take count
  let values ← digits.mapM hexDigit?
  let n := values.foldl (fun n d => n * 16 + d) 0
  if digits.length = count ∧ n.isValidChar then some (Char.ofNat n) else none

/-- The character of an escape and how many characters after the backslash it takes. -/
def escape? : List Char → Option (Char × Nat)
  | 'b' :: _ => some ('\x08', 1)
  | 't' :: _ => some ('\t', 1)
  | 'n' :: _ => some ('\n', 1)
  | 'f' :: _ => some ('\x0c', 1)
  | 'r' :: _ => some ('\r', 1)
  | 'e' :: _ => some ('\x1b', 1)
  | '"' :: _ => some ('"', 1)
  | '\\' :: _ => some ('\\', 1)
  | 'x' :: rest => (codePoint? 2 rest).map (·, 3)
  | 'u' :: rest => (codePoint? 4 rest).map (·, 5)
  | 'U' :: rest => (codePoint? 8 rest).map (·, 9)
  | _ => none

/-- The characters of a string and the rest of the text. -/
abbrev Read := List Char × List Char

/-- One more character in front. -/
def Read.push (c : Char) (r : Read) : Read := (c :: r.1, r.2)

/--
Reads a string on one line up to its quote.  The number counts the characters
that still belong to an escape.
-/
def basic? : Nat → List Char → Option Read
  | _, [] => none
  | inEscape + 1, _ :: rest => basic? inEscape rest
  | 0, '"' :: rest => some ([], rest)
  | 0, '\\' :: rest => do
    let (c, n) ← escape? rest
    (basic? n rest).map (Read.push c)
  | 0, c :: rest => if isPlain c then (basic? 0 rest).map (Read.push c) else none

/-- Reads a literal string on one line up to its quote. -/
def literal? : List Char → Option Read
  | [] => none
  | '\'' :: rest => some ([], rest)
  | c :: rest => if isPlain c then (literal? rest).map (Read.push c) else none

/-- Whether blanks and then a line break follow, so that a backslash joins lines. -/
def joinsLines (s : List Char) : Bool := (lineBreak? (skipBlanks s)).isSome

/-- Skips blanks and line breaks after a backslash that joins lines. -/
def skipJoined : List Char → List Char
  | '\r' :: '\n' :: rest => skipJoined rest
  | c :: rest => if isBlank c || c == '\n' then skipJoined rest else c :: rest
  | [] => []

/-- The closing of a string over several lines; up to two quotes may stand in front of it. -/
def closing? (quote : Char) (s : List Char) : Option Read :=
  let quotes := s.takeWhile (· == quote)
  if 3 ≤ quotes.length ∧ quotes.length ≤ 5 then
    some (quotes.drop 3, s.drop quotes.length)
  else none

/-- Reads a string over several lines up to its quotes. -/
def longBasic? : Nat → List Char → Option Read
  | 0, _ => none
  | _, [] => none
  | bound + 1, c :: rest =>
    if c == '"' then
      match closing? '"' (c :: rest) with
      | some r => some r
      | none =>
        if 6 ≤ ((c :: rest).takeWhile (· == '"')).length then none
        else (longBasic? bound rest).map (Read.push c)
    else if c == '\\' then
      if joinsLines rest then longBasic? bound (skipJoined rest)
      else do
        let (c, n) ← escape? rest
        (longBasic? bound (rest.drop n)).map (Read.push c)
    else
      match lineBreak? (c :: rest) with
      | some after =>
        let taken := (c :: rest).take (rest.length + 1 - after.length)
        (longBasic? bound after).map fun r => (taken ++ r.1, r.2)
      | none => if isPlain c then (longBasic? bound rest).map (Read.push c) else none

/-- Reads a literal string over several lines up to its quotes. -/
def longLiteral? : Nat → List Char → Option Read
  | 0, _ => none
  | _, [] => none
  | bound + 1, c :: rest =>
    if c == '\'' then
      match closing? '\'' (c :: rest) with
      | some r => some r
      | none =>
        if 6 ≤ ((c :: rest).takeWhile (· == '\'')).length then none
        else (longLiteral? bound rest).map (Read.push c)
    else
      match lineBreak? (c :: rest) with
      | some after =>
        let taken := (c :: rest).take (rest.length + 1 - after.length)
        (longLiteral? bound after).map fun r => (taken ++ r.1, r.2)
      | none => if isPlain c then (longLiteral? bound rest).map (Read.push c) else none

/-- Skips the line break right after the opening quotes of a string over several lines. -/
def skipFirstBreak (s : List Char) : List Char := (lineBreak? s).getD s

/-- Reads a string on one line. -/
def shortString? : List Char → Option Read
  | '"' :: rest => basic? 0 rest
  | '\'' :: rest => literal? rest
  | _ => none

/-- Reads a string of any kind. -/
def string? : List Char → Option Read
  | '"' :: '"' :: '"' :: rest =>
    let rest := skipFirstBreak rest
    longBasic? (rest.length + 1) rest
  | '\'' :: '\'' :: '\'' :: rest =>
    let rest := skipFirstBreak rest
    longLiteral? (rest.length + 1) rest
  | s => shortString? s

/-! ## Keys -/

/-- Reads one key, bare or quoted. -/
def simpleKey? (s : List Char) : Option (String × List Char) :=
  match s.takeWhile isBare with
  | [] => (shortString? s).map fun (cs, rest) => (String.ofList cs, rest)
  | cs => some (String.ofList cs, s.drop cs.length)

/--
Reads a dotted key: the keys in front of the last one, and the last one.  The
number is how many keys there may be.
-/
def dottedKey? : Nat → List Char → Option ((List String × String) × List Char)
  | 0, _ => none
  | left + 1, s => do
    let (key, rest) ← simpleKey? (skipBlanks s)
    let rest := skipBlanks rest
    match rest with
    | '.' :: rest =>
      let ((path, last), rest) ← dottedKey? left rest
      some ((key :: path, last), rest)
    | _ => some (([], key), rest)

end SignalSlot.Toml
