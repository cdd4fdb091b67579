import SignalSlot.Toml.Scalar

set_option autoImplicit false

/-!
# Reading TOML texts

A document is a list of lines; each is empty, the header of a table, or a key
with its value.  A value may go over several lines only inside brackets, braces
or the quotes of a long string.  Brackets and braces nest no deeper than
`maxDepth`, and no dotted key has more keys than that.
-/

namespace SignalSlot.Toml

/-- How deep arrays and inline tables nest, and how many keys a dotted key has, at most. -/
def maxDepth : Nat := 80

mutual

/--
Reads a value.  The bound limits how many values and separators are read, and
`depth` how many arrays and inline tables may be open at once.
-/
def value? : Nat → Nat → List Char → Option (Toml × List Char)
  | 0, _, _ => none
  | _, _, [] => none
  | bound + 1, depth, c :: rest =>
    if c == '[' then
      match depth with
      | 0 => none
      | depth + 1 => do
        let (items, rest) ← items? bound depth rest
        some (.array items, rest)
    else if c == '{' then
      match depth with
      | 0 => none
      | depth + 1 => do
        let (entries, rest) ← entries? bound depth [] rest
        some (.table .inline entries, rest)
    else if c == '"' || c == '\'' then do
      let (cs, rest) ← string? (c :: rest)
      some (.text (String.ofList cs), rest)
    else
      let (w, rest) := word (c :: rest)
      (scalar? w).map fun v => (v, rest)

/-- Reads the items of an array up to its bracket. -/
def items? : Nat → Nat → List Char → Option (List Toml × List Char)
  | 0, _, _ => none
  | bound + 1, depth, s => do
    let s ← skipLines? s
    match s with
    | ']' :: rest => some ([], rest)
    | _ =>
      let (v, s) ← value? bound depth s
      let s ← skipLines? s
      match s with
      | ',' :: rest =>
        let (items, rest) ← items? bound depth rest
        some (v :: items, rest)
      | ']' :: rest => some ([v], rest)
      | _ => none

/-- Reads the entries of an inline table up to its brace; each may go over several lines. -/
def entries? : Nat → Nat → Entries → List Char → Option (Entries × List Char)
  | 0, _, _, _ => none
  | bound + 1, depth, entries, s => do
    let s ← skipLines? s
    match s with
    | '}' :: rest => some (entries, rest)
    | _ =>
      let ((path, key), s) ← dottedKey? maxDepth s
      let s ← skipLines? s
      match s with
      | '=' :: s =>
        let s ← skipLines? s
        let (v, s) ← value? bound depth s
        let entries ← Entries.assign? entries path key v
        let s ← skipLines? s
        match s with
        | ',' :: rest => entries? bound depth entries rest
        | '}' :: rest => some (entries, rest)
        | _ => none
      | _ => none

end

/-- A document while it is being read: its entries and the path of the last header. -/
structure Draft where
  entries : Entries := []
  header : List String := []
  deriving Repr, Inhabited

/-- Reads a header after its first bracket. -/
def header? (draft : Draft) (s : List Char) : Option (Draft × List Char) :=
  match s with
  | '[' :: s => do
    let ((path, key), s) ← dottedKey? maxDepth s
    match s with
    | ']' :: ']' :: rest =>
      let entries ← Entries.openItem? draft.entries path key
      some (⟨entries, path ++ [key]⟩, rest)
    | _ => none
  | s => do
    let ((path, key), s) ← dottedKey? maxDepth s
    match s with
    | ']' :: rest =>
      let entries ← Entries.openTable? draft.entries path key
      some (⟨entries, path ++ [key]⟩, rest)
    | _ => none

/-- Reads a key and its value. -/
def assignment? (draft : Draft) (s : List Char) : Option (Draft × List Char) := do
  let ((path, key), s) ← dottedKey? maxDepth s
  match s with
  | '=' :: rest =>
    let (v, rest) ← value? (rest.length + 1) maxDepth (skipBlanks rest)
    let entries ← Entries.assignIn? draft.entries draft.header path key v
    some (⟨entries, draft.header⟩, rest)
  | _ => none

/-- Reads lines up to the end of the text; every line takes at least one character. -/
def lines? : Nat → Draft → List Char → Option Draft
  | 0, _, _ => none
  | bound + 1, draft, s =>
    match skipBlanks s with
    | [] => some draft
    | '[' :: rest => do
      let (draft, rest) ← header? draft rest
      let rest ← endOfLine? rest
      lines? bound draft rest
    | c :: rest =>
      if c == '#' || (lineBreak? (c :: rest)).isSome then do
        let rest ← endOfLine? (c :: rest)
        lines? bound draft rest
      else do
        let (draft, rest) ← assignment? draft (c :: rest)
        let rest ← endOfLine? rest
        lines? bound draft rest

/-- The entries of a text; a byte-order mark in front of it is skipped. -/
def read? (text : String) : Option Entries :=
  let s := text.toList
  let s := if s.head? == some '\uFEFF' then s.drop 1 else s
  (lines? (s.length + 2) {} s).map (·.entries)

end SignalSlot.Toml
