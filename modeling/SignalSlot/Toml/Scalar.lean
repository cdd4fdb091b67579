import SignalSlot.Toml.Lexeme

set_option autoImplicit false

/-!
# Scalars of TOML texts

A scalar that is no string is a word: a truth value, a number or a date.  What
kind of scalar a word is meant to be shows in its first characters, and then the
word must have the form of that kind.

The form of an integer is looser than that of its value.  A word such as `0x`, or
`1_0:`, has the form of an integer, so it may stand where nothing asks for its
value, but it has none.
-/

namespace SignalSlot.Toml

/-! ## Digits -/

/-- Whether a character is a digit in base sixteen. -/
def isHexDigit (c : Char) : Bool := (hexDigit? c).isSome

/-- Whether a character is a digit in a base. -/
def isDigitIn (base : Nat) (c : Char) : Bool :=
  match hexDigit? c with
  | some d => d < base
  | none => false

/-- The number of one or more digits. -/
def number? (base : Nat) (s : List Char) : Option Nat :=
  if s.isEmpty || !s.all (isDigitIn base) then none
  else some (s.foldl (fun n c => n * base + (hexDigit? c).getD 0) 0)

/-- The integer of digits that may have a sign. -/
def signedNumber? (base : Nat) : List Char → Option Int
  | '+' :: s => (number? base s).map Int.ofNat
  | '-' :: s => (number? base s).map fun n => -Int.ofNat n
  | s => (number? base s).map Int.ofNat

/-- The parts of a word between its underscores. -/
def splitUnderscores : List Char → List (List Char)
  | [] => [[]]
  | c :: rest =>
    match splitUnderscores rest with
    | part :: parts => if c = '_' then [] :: part :: parts else (c :: part) :: parts
    | [] => [[c]]

/--
Whether underscores stand between digits: no part is empty, each part but the
first starts with a digit, and each part but the last ends with one.
-/
def underscoresFit (isDigit : Char → Bool) (s : List Char) : Bool :=
  let parts := splitUnderscores s
  parts.length == 1 ||
    (parts.all (fun part => !part.isEmpty) &&
      parts.tail.all (fun part => (part.head?.map isDigit).getD false) &&
      parts.dropLast.all fun part => (part.getLast?.map isDigit).getD false)

/-! ## Numbers -/

/-- An integer of a form that was checked, with its value if it has one. -/
def ofDigits (base : Nat) (s : List Char) : Toml :=
  match signedNumber? base (s.filter (· != '_')) with
  | some n => .integer n
  | none => .other

/-- An integer with a mark for its base in front: digits, and underscores between them. -/
def marked? (base : Nat) (s : List Char) : Option Toml :=
  if s.all (fun c => c == '_' || isDigitIn base c) && underscoresFit isHexDigit s then
    some (ofDigits base s)
  else none

/-- An integer in base ten; `s` is the word without its sign. -/
def decimal? (word s : List Char) : Option Toml :=
  if s.head? != some '0' && underscoresFit isHexDigit word then some (ofDigits 10 word) else none

/-- Whether a character may stand among the digits of a float. -/
def isFloatDigit (c : Char) : Bool := c.isDigit || c == '_'

/-- Drops one or more digits; unless zeros may lead, the first of several is no zero. -/
def dropDigits? (zerosLead : Bool) (s : List Char) : Option (List Char) :=
  let count := (s.takeWhile isFloatDigit).countP Char.isDigit
  if count = 0 ∨ (1 < count ∧ s.head? = some '0' ∧ !zerosLead) then none
  else some (s.dropWhile isFloatDigit)

/-- Drops the fraction of a float, if there is one. -/
def dropFraction? : List Char → Option (List Char)
  | '.' :: s => dropDigits? true s
  | s => some s

/-- Drops a sign. -/
def unsigned : List Char → List Char
  | '+' :: s => s
  | '-' :: s => s
  | s => s

/-- Drops the exponent of a float, if there is one. -/
def dropExponent? : List Char → Option (List Char)
  | 'e' :: s => dropDigits? true (unsigned s)
  | 'E' :: s => dropDigits? true (unsigned s)
  | s => some s

/-- A float; `s` is the word without its sign. -/
def float? (word s : List Char) : Option Toml := do
  let rest ← dropDigits? false s
  let rest ← dropFraction? rest
  let rest ← dropExponent? rest
  if rest.isEmpty && underscoresFit Char.isDigit word then some .other else none

/-! ## Dates and times -/

/-- The value of exactly as many digits as asked for. -/
def fixed? (n : Nat) (s : List Char) : Option Nat :=
  if s.length = n ∧ s.all Char.isDigit then number? 10 s else none

/-- The number of days of a month. -/
def daysIn (year month : Nat) : Nat :=
  if month = 2 then
    if year % 4 = 0 ∧ (year % 100 ≠ 0 ∨ year % 400 = 0) then 29 else 28
  else if month = 4 ∨ month = 6 ∨ month = 9 ∨ month = 11 then 30
  else 31

/-- Whether a word is a date such as `2024-02-29`. -/
def isDate (s : List Char) : Bool :=
  match fixed? 4 (s.take 4), fixed? 2 ((s.drop 5).take 2), fixed? 2 (s.drop 8) with
  | some year, some month, some day =>
    s[4]? == some '-' && s[7]? == some '-' && 1 ≤ month && month ≤ 12 && 1 ≤ day &&
      day ≤ daysIn year month
  | _, _, _ => false

/-- Whether a word is hours and minutes. -/
def isClock (s : List Char) : Bool :=
  match fixed? 2 (s.take 2), fixed? 2 (s.drop 3) with
  | some hour, some minute => s[2]? == some ':' && hour ≤ 23 && minute ≤ 59
  | _, _ => false

/-- Whether a word is a time; seconds and their fraction may be left out. -/
def isTime (s : List Char) : Bool :=
  isClock (s.take 5) &&
    match s.drop 5 with
    | [] => true
    | ':' :: rest =>
      (match fixed? 2 (rest.take 2) with | some second => second ≤ 60 | none => false) &&
        (match rest.drop 2 with
          | [] => true
          | '.' :: ds => !ds.isEmpty && ds.all Char.isDigit
          | _ => false)
    | _ => false

/-- Whether a word is a time, perhaps with an offset. -/
def isOffsetTime (s : List Char) : Bool :=
  let isOffsetMark (c : Char) : Bool := c == 'Z' || c == 'z' || c == '+' || c == '-'
  let time := s.takeWhile (!isOffsetMark ·)
  isTime time &&
    match s.drop time.length with
    | [] => true
    | [c] => c == 'Z' || c == 'z'
    | _ :: clock => isClock clock

/-- Whether a word is a date, a time or both. -/
def isDateTime (s : List Char) : Bool :=
  isDate s || isTime s ||
    (isDate (s.take 10) &&
      (match s.drop 10 with
        | c :: rest => (c == 'T' || c == 't' || c == ' ') && isOffsetTime rest
        | [] => false))

/-! ## Words -/

/-- A number in base ten or a date; `s` is the word without its sign. -/
def numberOrDate? (word s : List Char) : Option Toml :=
  let rest := s.dropWhile Char.isDigit
  match rest.head? with
  | none => decimal? word s
  | some c =>
    if c == '-' || c == ':' then if isDateTime word then some .other else none
    else if rest.any fun c => c == '.' || c == 'e' || c == 'E' then float? word s
    else if c == '_' then decimal? word s
    else none

/-- The value of a word without its sign; integers with a mark for their base have none. -/
def unsignedScalar? (signed : Bool) (word : List Char) : List Char → Option Toml
  | ['0'] => some (.integer 0)
  | '0' :: 'x' :: s => if signed then none else marked? 16 s
  | '0' :: 'o' :: s => if signed then none else marked? 8 s
  | '0' :: 'b' :: s => if signed then none else marked? 2 s
  | s =>
    if s == "inf".toList || s == "nan".toList then some .other
    else if (s.headD ' ').isDigit || s.head? == some '_' then numberOrDate? word s
    else none

/-- The value of a word. -/
def scalar? (word : List Char) : Option Toml :=
  match word with
  | '+' :: s => unsignedScalar? true word s
  | '-' :: s => unsignedScalar? true word s
  | s =>
    if s == "true".toList || s == "false".toList then some .other
    else unsignedScalar? false word s

/-- Whether a character may stand in a word. -/
def isWordChar (c : Char) : Bool := !"=,[]\x7b\x7d \t#\r\n".toList.contains c

/-- Splits a word off; a blank may divide a date from its time. -/
def word (s : List Char) : Read :=
  let first := s.takeWhile isWordChar
  match s.drop first.length with
  | ' ' :: rest =>
    let second := rest.takeWhile isWordChar
    if isDate first && (second.headD ' ').isDigit then
      (first ++ ' ' :: second, rest.drop second.length)
    else (first, ' ' :: rest)
  | rest => (first, rest)

end SignalSlot.Toml
