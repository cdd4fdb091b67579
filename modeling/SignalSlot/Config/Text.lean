import SignalSlot.Config
import SignalSlot.Toml.Reader

set_option autoImplicit false

/-!
# Configurations as texts

A configuration file is a TOML document with at most one entry, `resolver`.  Its
fields may be written as a table or as an array in order; fields that are left
out have their built-in values, and an unknown key is an error.
-/

namespace SignalSlot.Config

/-- A text value. -/
def ofText? : Toml → Option String
  | .text s => some s
  | _ => none

/-- A list of texts. -/
def ofTexts? : Toml → Option (List String)
  | .array items => items.mapM ofText?
  | _ => none

/-- A number of 32 bits. -/
def ofWord32? : Toml → Option UInt32
  | .integer n => if 0 ≤ n ∧ n.toNat < UInt32.size then some (UInt32.ofNat n.toNat) else none
  | _ => none

/-- Sets the field of a name. -/
def set? (c : Config) (name : String) (v : Toml) : Option Config :=
  match name with
  | "class_prefix" => (ofText? v).map fun s => { c with classFamily := s }
  | "private_impl_accessor" => (ofText? v).map fun s => { c with privateAccessor := s }
  | "flag_location_function" => (ofText? v).map fun s => { c with flagLocation := s }
  | "sentinel_parameter_types" => (ofTexts? v).map fun ts => { c with sentinelTypes := ts }
  | "max_base_depth" => (ofWord32? v).map fun n => { c with maxBaseDepth := n }
  | _ => none

/-- The configuration of a value; items of an array beyond the last field are passed over. -/
def ofToml? : Toml → Option Config
  | .table _ entries => entries.foldlM (fun c (name, v) => set? c name v) builtin
  | .array items => (fields.zip items).foldlM (fun c (name, v) => set? c name v) builtin
  | _ => none

/-- The configuration of a text. -/
def parse? (text : String) : Option Config := do
  match ← Toml.read? text with
  | [] => some builtin
  | [("resolver", v)] => ofToml? v
  | _ => none

end SignalSlot.Config
