set_option autoImplicit false

/-!
# TOML documents

Tables remember how they were written, because that decides whether a later line
may add to them: a table with a header is written once, a table made by dotted
keys takes further dotted keys, and an inline table takes nothing.
-/

namespace SignalSlot

/-- How a table came to be. -/
inductive TableOrigin where
  /-- It has a header of its own, or is the document itself. -/
  | header
  /-- A header of a table below it mentions it. -/
  | mentioned
  /-- A dotted key goes through it. -/
  | dotted
  /-- It stands in braces. -/
  | inline
  deriving DecidableEq, Repr, Inhabited

/-- A value of a TOML document. -/
inductive Toml where
  | text (s : String)
  | integer (n : Int)
  /-- A truth value, a float or a date. -/
  | other
  | array (items : List Toml)
  /-- An array of tables that have headers; the last one is first. -/
  | tables (items : List (List (String × Toml)))
  | table (origin : TableOrigin) (entries : List (String × Toml))
  deriving Repr, Inhabited

namespace Toml

/-- The entries of a table. -/
abbrev Entries := List (String × Toml)

/-- Replaces the value of a key, or adds the key at the end. -/
def Entries.set (key : String) (v : Toml) : Entries → Entries
  | [] => [(key, v)]
  | (k, w) :: rest => if k = key then (k, v) :: rest else (k, w) :: Entries.set key v rest

/-- Adds a value under a key that is new. -/
def Entries.add? (entries : Entries) (key : String) (v : Toml) : Option Entries :=
  match entries.lookup key with
  | some _ => none
  | none => some (entries ++ [(key, v)])

/--
Changes the table at a path of keys.  Tables on the way that do not exist are
made with the origin given; `enter` says which existing ones may be gone
through.
-/
def Entries.update? (origin : TableOrigin) (enter : TableOrigin → Bool) :
    List String → (Entries → Option Entries) → Entries → Option Entries
  | [], change, entries => change entries
  | key :: path, change, entries =>
    match entries.lookup key with
    | none => do
      let inner ← Entries.update? origin enter path change []
      some (entries ++ [(key, .table origin inner)])
    | some (.table o inner) =>
      if enter o then do
        let inner ← Entries.update? origin enter path change inner
        some (Entries.set key (.table o inner) entries)
      else none
    | some (.tables (last :: others)) =>
      if enter .header then do
        let last ← Entries.update? origin enter path change last
        some (Entries.set key (.tables (last :: others)) entries)
      else none
    | some _ => none

/-- Adds a value under a dotted key; only tables made by dotted keys may be extended. -/
def Entries.assign? (entries : Entries) (path : List String) (key : String) (v : Toml) :
    Option Entries :=
  Entries.update? .dotted (· == .dotted) path (fun es => Entries.add? es key v) entries

/-- Opens the table of a header: it is new, or was only mentioned. -/
def Entries.openTable? (entries : Entries) (path : List String) (key : String) :
    Option Entries :=
  Entries.update? .mentioned (· != .inline) path
    (fun es =>
      match es.lookup key with
      | none => some (es ++ [(key, .table .header [])])
      | some (.table .mentioned inner) => some (Entries.set key (.table .header inner) es)
      | some _ => none)
    entries

/-- Opens one more table of an array of tables. -/
def Entries.openItem? (entries : Entries) (path : List String) (key : String) :
    Option Entries :=
  Entries.update? .mentioned (· != .inline) path
    (fun es =>
      match es.lookup key with
      | none => some (es ++ [(key, .tables [[]])])
      | some (.tables items) => some (Entries.set key (.tables ([] :: items)) es)
      | some _ => none)
    entries

/-- Adds a value under a dotted key to the table that the last header opened. -/
def Entries.assignIn? (entries : Entries) (header path : List String) (key : String)
    (v : Toml) : Option Entries :=
  Entries.update? .mentioned (fun _ => true) header
    (fun es => Entries.assign? es path key v) entries

end Toml

end SignalSlot
