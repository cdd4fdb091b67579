import SignalSlot.Json.Basic

set_option autoImplicit false

/-!
# Writing JSON texts

Documents are written without any blank.  In strings, quotes, backslashes and
the control characters below U+0020 are escaped and everything else stands for
itself.
-/

namespace SignalSlot.Json

/-- A hexadecimal digit. -/
def hexDigit (n : Nat) : Char :=
  if n < 10 then Char.ofNat ('0'.toNat + n) else Char.ofNat ('a'.toNat + (n - 10))

/-- The characters that are written for one character of a string. -/
def escaped (c : Char) : List Char :=
  if c = '"' then ['\\', '"']
  else if c = '\\' then ['\\', '\\']
  else if c = '\x08' then ['\\', 'b']
  else if c = '\x0c' then ['\\', 'f']
  else if c = '\n' then ['\\', 'n']
  else if c = '\r' then ['\\', 'r']
  else if c = '\t' then ['\\', 't']
  else if c < ' ' then
    ['\\', 'u', '0', '0', hexDigit (c.toNat / 16), hexDigit (c.toNat % 16)]
  else [c]

/-- A string with its quotes. -/
def quoted (s : List Char) : List Char :=
  '"' :: (s.flatMap escaped ++ ['"'])

/-- A string with its quotes; one that is no text is written as an empty one. -/
def quotedText : Quoted → List Char
  | .text s => quoted s.toList
  | .unpaired => quoted []

mutual

/-- The characters of a document; what could not be read is written as `null`. -/
def write : Json → List Char
  | .null => "null".toList
  | .bool true => "true".toList
  | .bool false => "false".toList
  | .number (.natural n) => Nat.toDigits 10 n
  | .number .other => "null".toList
  | .string q => quotedText q
  | .array [] => "[]".toList
  | .array (v :: rest) => '[' :: (write v ++ writeItems rest)
  | .object [] => "\x7b\x7d".toList
  | .object ((k, v) :: rest) => '{' :: (quotedText k ++ ':' :: (write v ++ writeMembers rest))
  | .tooDeep v => write v
  | .broken => "null".toList

/-- The further items of an array and its end. -/
def writeItems : List Json → List Char
  | [] => [']']
  | v :: rest => ',' :: (write v ++ writeItems rest)

/-- The further members of an object and its end. -/
def writeMembers : List (Quoted × Json) → List Char
  | [] => ['}']
  | (k, v) :: rest => ',' :: (quotedText k ++ ':' :: (write v ++ writeMembers rest))

end

/-- The text of a document. -/
def render (j : Json) : String :=
  String.ofList j.write

end SignalSlot.Json
