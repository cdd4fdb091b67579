import SignalSlot.Literal
import SignalSlot.TypeDesc

set_option autoImplicit false

/-!
# The declarations of a unit

`Universe` is a flat, immutable view of the classes of one unit: their bases,
their methods in declaration order, and the expansion entries of its source.
Classes and methods are referred to by their position, methods being numbered
through all classes.

A base or a pointed-to type that names no declared class stands for nothing.
-/

namespace SignalSlot

/-! ## Declarations as written -/

/-- A parameter and whether it has a default argument. -/
structure ParamDecl where
  type : TypeDesc
  hasDefault : Bool := false
  deriving DecidableEq, Repr, Inhabited

/-- A method; constructors, destructors and operators have no name. -/
structure MethodDecl where
  name : Option String
  params : List ParamDecl := []
  returns : Option TypeDesc := none
  deriving DecidableEq, Repr, Inhabited

/-- A class; one that is only announced is not defined. -/
structure ClassDecl where
  name : String
  defined : Bool := true
  bases : List String := []
  methods : List MethodDecl := []
  deriving DecidableEq, Repr, Inhabited

/-- The expansion entry of a location: the range it was expanded from. -/
structure ExpansionDecl where
  location : SourceLocation
  start : SourceLocation
  stop : SourceLocation
  deriving DecidableEq, Repr, Inhabited

/-- The length of the token at a location. -/
structure TokenLengthDecl where
  location : SourceLocation
  length : UInt32
  deriving DecidableEq, Repr, Inhabited

/-! ## Handles and entries -/

/-- A class by its position in the unit. -/
structure ClassId where
  index : Nat
  deriving DecidableEq, Repr, Inhabited

/-- A method by its position among all methods of the unit. -/
structure MethodId where
  index : Nat
  deriving DecidableEq, Repr, Inhabited

/-- A class of the universe. -/
structure ClassEntry where
  name : String
  defined : Bool
  bases : List String
  methods : List MethodId
  deriving DecidableEq, Repr, Inhabited

/-- A method of the universe. -/
structure MethodEntry where
  owner : ClassId
  name : Option String
  params : List ParamDecl
  returns : Option TypeDesc
  deriving DecidableEq, Repr, Inhabited

/-- The classes, methods and expansion entries of one unit. -/
structure Universe where
  classes : List ClassEntry := []
  methods : List MethodEntry := []
  expansions : List ExpansionDecl := []
  tokenLengths : List TokenLengthDecl := []
  deriving DecidableEq, Repr, Inhabited

/-- A class name that is declared a second time. -/
structure DuplicateClass where
  name : String
  deriving DecidableEq, Repr, Inhabited

/-- The text of the error. -/
def DuplicateClass.message (e : DuplicateClass) : String :=
  "class `" ++ e.name ++ "` is declared more than once"

namespace Universe

/-! ## Building -/

/-- The class of a name. -/
def classNamed? (u : Universe) (name : String) : Option ClassId :=
  (u.classes.findIdx? (·.name == name)).map ClassId.mk

/-- The entry of a method declared in a class. -/
def entryOf (owner : ClassId) (decl : MethodDecl) : MethodEntry where
  owner := owner
  name := decl.name
  params := decl.params
  returns := decl.returns

/-- Appends a class and its methods; a name that is taken is refused. -/
def addClass (u : Universe) (decl : ClassDecl) : Except DuplicateClass Universe :=
  if (u.classNamed? decl.name).isSome then .error ⟨decl.name⟩
  else
    let id : ClassId := ⟨u.classes.length⟩
    let ids := (List.range' u.methods.length decl.methods.length).map MethodId.mk
    .ok { u with
      classes := u.classes ++ [⟨decl.name, decl.defined, decl.bases, ids⟩]
      methods := u.methods ++ decl.methods.map (entryOf id) }

/-- The universe of a list of classes; the first class that repeats a name is refused. -/
def ofClasses (decls : List ClassDecl) : Except DuplicateClass Universe :=
  decls.foldlM addClass {}

/-- Adds the expansion entries and token lengths of the source. -/
def withSourceMap (u : Universe) (expansions : List ExpansionDecl)
    (tokenLengths : List TokenLengthDecl) : Universe :=
  { u with expansions := u.expansions ++ expansions,
           tokenLengths := u.tokenLengths ++ tokenLengths }

/-! ## Classes -/

/-- The entry of a class. -/
def class? (u : Universe) (c : ClassId) : Option ClassEntry :=
  u.classes[c.index]?

/-- The name of a class. -/
def className (u : Universe) (c : ClassId) : String :=
  (u.class? c).elim "" (·.name)

/-- Whether a definition of the class is known. -/
def isDefined (u : Universe) (c : ClassId) : Bool :=
  (u.class? c).elim false (·.defined)

/-- The methods declared in a class, in order. -/
def methodsOf (u : Universe) (c : ClassId) : List MethodId :=
  (u.class? c).elim [] (·.methods)

/-- The class that the first base names; later bases are never followed. -/
def firstBase? (u : Universe) (c : ClassId) : Option ClassId := do
  let entry ← u.class? c
  let base ← entry.bases.head?
  u.classNamed? base

/-! ## Methods -/

/-- The entry of a method. -/
def method? (u : Universe) (m : MethodId) : Option MethodEntry :=
  u.methods[m.index]?

/-- The class that declares a method. -/
def owner? (u : Universe) (m : MethodId) : Option ClassId :=
  (u.method? m).map (·.owner)

/-- The name of a method that has one. -/
def methodName? (u : Universe) (m : MethodId) : Option String :=
  (u.method? m).bind (·.name)

/-- The parameters of a method. -/
def paramsOf (u : Universe) (m : MethodId) : List ParamDecl :=
  (u.method? m).elim [] (·.params)

/-- The number of parameters of a method. -/
def parameterCount (u : Universe) (m : MethodId) : Nat :=
  (u.paramsOf m).length

/-- The type of the parameter at a position. -/
def parameterType? (u : Universe) (m : MethodId) (index : Nat) : Option TypeDesc :=
  (u.paramsOf m)[index]?.map (·.type)

/-- How many parameters stand in front of the first one with a default argument. -/
def minRequired (u : Universe) (m : MethodId) : Nat :=
  (u.paramsOf m).findIdx (·.hasDefault)

/-- The declared result type. -/
def resultType? (u : Universe) (m : MethodId) : Option TypeDesc :=
  (u.method? m).bind (·.returns)

/-- The methods of a class that have the name, in order. -/
def methodsNamed (u : Universe) (c : ClassId) (name : String) : List MethodId :=
  (u.methodsOf c).filter fun m => u.methodName? m == some name

/-- The declared class that a single pointer points to. -/
def pointee? (u : Universe) (ty : TypeDesc) : Option ClassId :=
  if ty.pointer = 1 && !ty.reference then u.classNamed? ty.name else none

/-- The name written for a method without one. -/
def anonymous : String := "<anonymous>"

/-- A method's entry as `Owner::name(type, type)`. -/
def signatureOf (u : Universe) (entry : MethodEntry) : String :=
  u.className entry.owner ++ "::" ++ entry.name.getD anonymous ++ "(" ++
    ", ".intercalate (entry.params.map fun p => p.type.print .full) ++ ")"

/-- A method as `Owner::name(type, type)`. -/
def qualifiedSignature (u : Universe) (m : MethodId) : String :=
  (u.method? m).elim "" u.signatureOf

/-! ## Source map -/

/-- The range a location was expanded from; the last entry counts, and none means itself. -/
def expansion (u : Universe) (location : SourceLocation) : SourceRange :=
  match u.expansions.reverse.find? (·.location == location) with
  | some e => ⟨e.start, e.stop⟩
  | none => ⟨location, location⟩

/-- The length of the token at a location; the last entry counts, and none means zero. -/
def tokenLength (u : Universe) (location : SourceLocation) : UInt32 :=
  match u.tokenLengths.reverse.find? (·.location == location) with
  | some e => e.length
  | none => 0

end Universe

end SignalSlot
