import SignalSlot.Json.Basic
import SignalSlot.Text.Affix

set_option autoImplicit false

/-!
# Tokens of JSON texts

A text is cut into tokens from left to right.  At the first place where no token
starts, a single `bad` token ends the list.
-/

namespace SignalSlot.Json

/-- A token of a JSON text. -/
inductive Token where
  | openBrace
  | closeBrace
  | openBracket
  | closeBracket
  | colon
  | comma
  | null
  | bool (b : Bool)
  | number (n : Number)
  | string (q : Quoted)
  /-- No token starts here. -/
  | bad
  deriving DecidableEq, Repr, Inhabited

namespace Token

/-! ## Strings -/

/-- The value of a hexadecimal digit. -/
def hexDigit? (c : Char) : Option Nat :=
  if '0' ≤ c ∧ c ≤ '9' then some (c.toNat - '0'.toNat)
  else if 'a' ≤ c ∧ c ≤ 'f' then some (c.toNat - 'a'.toNat + 10)
  else if 'A' ≤ c ∧ c ≤ 'F' then some (c.toNat - 'A'.toNat + 10)
  else none

/-- The value of four hexadecimal digits. -/
def hex4? (a b c d : Char) : Option Nat := do
  let a ← hexDigit? a
  let b ← hexDigit? b
  let c ← hexDigit? c
  let d ← hexDigit? d
  pure (((a * 16 + b) * 16 + c) * 16 + d)

/-- The character of a two-character escape. -/
def escape? : Char → Option Char
  | '"' => some '"'
  | '\\' => some '\\'
  | '/' => some '/'
  | 'b' => some '\x08'
  | 'f' => some '\x0c'
  | 'n' => some '\n'
  | 'r' => some '\r'
  | 't' => some '\t'
  | _ => none

/-- Whether a code unit is the first half of a pair. -/
def isHigh (n : Nat) : Bool := 0xD800 ≤ n && n < 0xDC00

/-- Whether a code unit is the second half of a pair. -/
def isLow (n : Nat) : Bool := 0xDC00 ≤ n && n < 0xE000

/-- The character of a pair of code units. -/
def ofPair (high low : Nat) : Char :=
  Char.ofNat (0x10000 + (high - 0xD800) * 0x400 + (low - 0xDC00))

/-- A character of a string or a code unit given by its number. -/
inductive Piece where
  | char (c : Char)
  | unit (n : Nat)
  deriving DecidableEq, Repr, Inhabited

/--
Reads the pieces of a string up to its closing quote.  A raw control character
and an unknown escape are refused.
-/
def pieces? : List Char → Option (List Piece × List Char)
  | [] => none
  | '"' :: rest => some ([], rest)
  | '\\' :: 'u' :: a :: b :: c :: d :: rest => do
    let n ← hex4? a b c d
    let (ps, r) ← pieces? rest
    pure (.unit n :: ps, r)
  | '\\' :: e :: rest => do
    let c ← escape? e
    let (ps, r) ← pieces? rest
    pure (.char c :: ps, r)
  | c :: rest =>
    if c < ' ' ∨ c = '\\' then none
    else do
      let (ps, r) ← pieces? rest
      pure (.char c :: ps, r)

/-- The characters of a list of pieces, unless half a pair stands alone. -/
def characters? : List Piece → Option (List Char)
  | [] => some []
  | .char c :: rest => (characters? rest).map (c :: ·)
  | .unit high :: .unit low :: rest =>
    if isHigh high && isLow low then (characters? rest).map (ofPair high low :: ·)
    else if isHigh high || isLow high then none
    else (characters? (.unit low :: rest)).map (Char.ofNat high :: ·)
  | .unit n :: rest =>
    if isHigh n || isLow n then none
    else (characters? rest).map (Char.ofNat n :: ·)

/-- The string that a list of pieces spells. -/
def ofPieces (ps : List Piece) : Token :=
  .string ((characters? ps).elim .unpaired fun cs => .text (String.ofList cs))

/-! ## Numbers -/

/-- The value of a run of decimal digits. -/
def digitsValue (ds : List Char) : Nat :=
  ds.foldl (fun n d => n * 10 + (d.toNat - '0'.toNat)) 0

/-- Splits the decimal digits in front off. -/
def digits (s : List Char) : List Char × List Char :=
  (s.takeWhile Char.isDigit, s.dropWhile Char.isDigit)

/-- Reads digits that must be there, such as those of a fraction. -/
def someDigits? (s : List Char) : Option (List Char) :=
  match digits s with
  | ([], _) => none
  | (_, rest) => some rest

/-- Skips a fraction; the flag says whether there was one. -/
def fraction? : List Char → Option (Bool × List Char)
  | '.' :: rest => (someDigits? rest).map fun r => (true, r)
  | s => some (false, s)

/-- Skips a sign. -/
def dropSign : List Char → List Char
  | '+' :: rest => rest
  | '-' :: rest => rest
  | s => s

/-- Skips an exponent; the flag says whether there was one. -/
def exponent? : List Char → Option (Bool × List Char)
  | c :: rest =>
    if c = 'e' ∨ c = 'E' then (someDigits? (dropSign rest)).map fun r => (true, r)
    else some (false, c :: rest)
  | [] => some (false, [])

/-- Reads the digits in front of a fraction; a leading zero stands alone. -/
def integer? (s : List Char) : Option (Nat × List Char) :=
  match digits s with
  | ([], _) => none
  | ('0' :: _ :: _, _) => none
  | (ds, rest) => some (digitsValue ds, rest)

/-- Reads a number without its sign. -/
def unsigned? (s : List Char) : Option (Number × List Char) := do
  let (n, s) ← integer? s
  let (hasFraction, s) ← fraction? s
  let (hasExponent, s) ← exponent? s
  pure (if hasFraction || hasExponent then .other else .natural n, s)

/-- Reads a number. -/
def number? : List Char → Option (Number × List Char)
  | '-' :: rest => (unsigned? rest).map fun (_, r) => (.other, r)
  | s => unsigned? s

/-! ## Cutting a text -/

/-- Whether a character may stand between tokens. -/
def isSpace (c : Char) : Bool :=
  c == ' ' || c == '\t' || c == '\n' || c == '\r'

/-- Reads the word of a token. -/
def word? (word : String) (token : Token) (s : List Char) : Option (Token × List Char) :=
  (Text.after? word.toList s).map fun rest => (token, rest)

/-- Reads the token that a text starts with. -/
def next? : List Char → Option (Token × List Char)
  | [] => none
  | '{' :: rest => some (.openBrace, rest)
  | '}' :: rest => some (.closeBrace, rest)
  | '[' :: rest => some (.openBracket, rest)
  | ']' :: rest => some (.closeBracket, rest)
  | ':' :: rest => some (.colon, rest)
  | ',' :: rest => some (.comma, rest)
  | '"' :: rest => (pieces? rest).map fun (ps, r) => (ofPieces ps, r)
  | s =>
    (word? "null" .null s).or <| (word? "true" (.bool true) s).or <|
      (word? "false" (.bool false) s).or <| (number? s).map fun (n, r) => (.number n, r)

/--
The tokens of a text.  The first argument bounds their number; the length of the
text is always enough, since each token and each space takes a character.
-/
def scanUpTo : Nat → List Char → List Token
  | 0, _ => []
  | bound + 1, s =>
    match s with
    | [] => []
    | c :: rest =>
      if isSpace c then scanUpTo bound rest
      else
        match next? (c :: rest) with
        | some (token, rest) => token :: scanUpTo bound rest
        | none => [.bad]

/-- The tokens of a text. -/
def scan (s : List Char) : List Token :=
  scanUpTo (s.length + 1) s

end Token

end SignalSlot.Json
