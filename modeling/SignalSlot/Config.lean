set_option autoImplicit false

/-!
# Configuration of the resolver

The built-in values describe the usual conventions of the framework; a
configuration file may replace any of them.
-/

namespace SignalSlot

/-- What the resolver takes from its configuration. -/
structure Config where
  /-- Only calls on classes whose name starts with this text are looked at. -/
  classFamily : String := "Q"
  /-- The accessor without parameters that returns the private implementation. -/
  privateAccessor : String := "d_func"
  /-- The free function that wraps a signature in debug builds. -/
  flagLocation : String := "qFlagLocation"
  /-- Types of a last parameter that a signature may leave out. -/
  sentinelTypes : List String := ["QPrivateSignal"]
  /-- The most classes that one search may examine. -/
  maxBaseDepth : UInt32 := 32
  deriving DecidableEq, Repr, Inhabited

namespace Config

/-- The built-in configuration. -/
def builtin : Config := {}

/-- The names of the fields in files, in order. -/
def fields : List String :=
  ["class_prefix", "private_impl_accessor", "flag_location_function",
    "sentinel_parameter_types", "max_base_depth"]

/-- Whether a printed type is one that a signature may leave out. -/
def isSentinel (config : Config) (printed : String) : Bool :=
  config.sentinelTypes.contains printed

end Config

end SignalSlot
