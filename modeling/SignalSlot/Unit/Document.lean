import SignalSlot.Json.Decode
import SignalSlot.Json.Writer
import SignalSlot.Unit

set_option autoImplicit false

/-!
# Units as documents

Each record of a unit has a form as a JSON document.  Encoding writes every
field, in order; decoding accepts every layout of a record: keys in any order,
fields with a default left out, and records as arrays.
-/

namespace SignalSlot

open Json

/-! ## Types and literals -/

namespace SourceRange

/-- A range as a document. -/
def encode (r : SourceRange) : Json :=
  .record [("begin", .nat r.start.toNat), ("end", .nat r.stop.toNat)]

/-- Decodes a range. -/
def decode : Json → Decoded SourceRange :=
  decodeRecord ["begin", "end"] false fun r =>
    SourceRange.mk <$> r.required "begin" decodeWord32 <*> r.required "end" decodeWord32

end SourceRange

namespace TypeDesc

/-- A type as a document. -/
def encode (ty : TypeDesc) : Json :=
  .record [("name", .text ty.name), ("const", .bool ty.isConst),
    ("pointer", .nat ty.pointer.toNat), ("reference", .bool ty.reference)]

/-- Decodes a type. -/
def decode : Json → Decoded TypeDesc :=
  decodeRecord ["name", "const", "pointer", "reference"] false fun r =>
    TypeDesc.mk <$> r.required "name" decodeText <*> r.defaulted "const" decodeBool false
      <*> r.defaulted "pointer" decodeWord8 0 <*> r.defaulted "reference" decodeBool false

end TypeDesc

namespace StringLiteral

/-- A literal as a document. -/
def encode (l : StringLiteral) : Json :=
  .record [("value", .text l.value), ("char_width", .nat l.charWidth.toNat),
    ("range", l.range.encode), ("tokens", .array (l.tokens.map fun t => .nat t.toNat))]

/-- Decodes a literal. -/
def decode : Json → Decoded StringLiteral :=
  decodeRecord ["value", "char_width", "range", "tokens"] false fun r =>
    StringLiteral.mk <$> r.required "value" decodeText <*> r.defaulted "char_width" decodeWord8 1
      <*> r.required "range" SourceRange.decode
      <*> r.defaulted "tokens" (decodeList decodeWord32) []

end StringLiteral

/-! ## Declarations -/

namespace ParamDecl

/-- A parameter as a document. -/
def encode (p : ParamDecl) : Json :=
  .record [("type", p.type.encode), ("default", .bool p.hasDefault)]

/-- Decodes a parameter. -/
def decode : Json → Decoded ParamDecl :=
  decodeRecord ["type", "default"] false fun r =>
    ParamDecl.mk <$> r.required "type" TypeDesc.decode <*> r.defaulted "default" decodeBool false

end ParamDecl

namespace MethodDecl

/-- A method as a document. -/
def encode (m : MethodDecl) : Json :=
  .record [("name", .optional .text m.name), ("params", .array (m.params.map ParamDecl.encode)),
    ("returns", .optional TypeDesc.encode m.returns)]

/-- Decodes a method. -/
def decode : Json → Decoded MethodDecl :=
  decodeRecord ["name", "params", "returns"] false fun r =>
    MethodDecl.mk <$> r.nullable "name" decodeText
      <*> r.defaulted "params" (decodeList ParamDecl.decode) []
      <*> r.optional "returns" TypeDesc.decode

end MethodDecl

namespace ClassDecl

/-- A class as a document. -/
def encode (c : ClassDecl) : Json :=
  .record [("name", .text c.name), ("defined", .bool c.defined),
    ("bases", .array (c.bases.map .text)), ("methods", .array (c.methods.map MethodDecl.encode))]

/-- Decodes a class. -/
def decode : Json → Decoded ClassDecl :=
  decodeRecord ["name", "defined", "bases", "methods"] false fun r =>
    ClassDecl.mk <$> r.required "name" decodeText <*> r.defaulted "defined" decodeBool true
      <*> r.defaulted "bases" (decodeList decodeText) []
      <*> r.defaulted "methods" (decodeList MethodDecl.decode) []

end ClassDecl

namespace ExpansionDecl

/-- An expansion entry as a document. -/
def encode (e : ExpansionDecl) : Json :=
  .record [("location", .nat e.location.toNat), ("begin", .nat e.start.toNat),
    ("end", .nat e.stop.toNat)]

/-- Decodes an expansion entry. -/
def decode : Json → Decoded ExpansionDecl :=
  decodeRecord ["location", "begin", "end"] false fun r =>
    ExpansionDecl.mk <$> r.required "location" decodeWord32 <*> r.required "begin" decodeWord32
      <*> r.required "end" decodeWord32

end ExpansionDecl

namespace TokenLengthDecl

/-- A token length as a document. -/
def encode (t : TokenLengthDecl) : Json :=
  .record [("location", .nat t.location.toNat), ("length", .nat t.length.toNat)]

/-- Decodes a token length. -/
def decode : Json → Decoded TokenLengthDecl :=
  decodeRecord ["location", "length"] false fun r =>
    TokenLengthDecl.mk <$> r.required "location" decodeWord32 <*> r.required "length" decodeWord32

end TokenLengthDecl

/-! ## Operands -/

namespace Operand

/-- The tags of operands, in the order in which they are listed. -/
def tags : List String := ["object", "literal", "call", "other"]

mutual

/-- An operand as a document. -/
def encode : Operand String → Json
  | .object ofClass pointer =>
    .record [("object", .record [("class", .optional .text ofClass), ("pointer", .bool pointer)])]
  | .literal value => .record [("literal", value.encode)]
  | .call callee args =>
    .record [("call", .record [("callee", .text callee), ("args", .array (encodeAll args))])]
  | .other => .text "other"

/-- Operands as documents. -/
def encodeAll : List (Operand String) → List Json
  | [] => []
  | operand :: rest => operand.encode :: encodeAll rest

end

/-- Decodes the content of an object operand. -/
def decodeObject : Json → Decoded (Operand String) :=
  decodeRecord ["class", "pointer"] false fun r =>
    Operand.object <$> r.nullable "class" decodeText <*> r.defaulted "pointer" decodeBool false

/-- A value together with its reading as a list of operands. -/
abbrev AsList := Json × Decoded (List (Operand String))

/-- Decodes the content of a call operand, once its values were read as lists. -/
def decodeCall (content : Json.Content AsList) : Decoded (Operand String) :=
  let r : Json.Record AsList := ⟨["callee", "args"], false, content⟩
  r.finish (fun v => v.1.isWhole) <|
    Operand.call <$> r.required "callee" (fun v => decodeText v.1)
      <*> r.defaulted "args" (fun v => v.2) []

/-- A decoded operand, provided that nothing follows it in its tagged object. -/
def only (decoded : Decoded (Operand String)) (rest : List (Quoted × Json)) :
    Decoded (Operand String) := do
  let operand ← decoded
  if rest.isEmpty then .ok operand else .error .malformed

mutual

/-- Decodes an operand: a bare tag, or an object whose only key is the tag. -/
def decode : Json → Decoded (Operand String)
  | .string (.text tag) =>
    if tag = "other" then .ok .other
    else if tags.contains tag then .error .malformed
    else .error (.unknownVariant tag tags)
  | .object ((.text tag, content) :: rest) =>
    if tag = "object" then only (decodeObject content) rest
    else if tag = "literal" then only (.literal <$> StringLiteral.decode content) rest
    else if tag = "call" then only (decodeCallOf content) rest
    else if tag = "other" then
      only (match content with | .null => .ok .other | _ => .error .malformed) rest
    else .error (.unknownVariant tag tags)
  | _ => .error .malformed

/-- Decodes the content of a call operand. -/
def decodeCallOf : Json → Decoded (Operand String)
  | .object ms => decodeCall (.members (membersAsLists ms))
  | .array vs => decodeCall (.items (itemsAsLists vs))
  | _ => .error .malformed

/-- Decodes a list of operands. -/
def decodeArray : Json → Decoded (List (Operand String))
  | .array vs => decodeAll vs
  | _ => .error .malformed

/-- Decodes operands one after the other. -/
def decodeAll : List Json → Decoded (List (Operand String))
  | [] => .ok []
  | v :: rest => do
    let operand ← decode v
    let operands ← decodeAll rest
    .ok (operand :: operands)

/-- The members of an object, each read as a list of operands too. -/
def membersAsLists : List (Quoted × Json) → List (Quoted × AsList)
  | [] => []
  | (k, v) :: rest => (k, v, decodeArray v) :: membersAsLists rest

/-- The items of an array, each read as a list of operands too. -/
def itemsAsLists : List Json → List AsList
  | [] => []
  | v :: rest => (v, decodeArray v) :: itemsAsLists rest

end

end Operand

/-! ## Calls and units -/

namespace CallKind

/-- The forms of calls by name. -/
def names : List (String × CallKind) :=
  [("static", .static), ("member", .member), ("construct", .construct)]

/-- The name of a form. -/
def text : CallKind → String
  | .static => "static"
  | .member => "member"
  | .construct => "construct"

end CallKind

namespace CallSite

/-- A call as a document. -/
def encode (c : CallSite String) : Json :=
  .record [("class", .text c.className), ("method", .text c.methodName),
    ("kind", .text c.kind.text), ("declared_params", .nat c.declaredParams.toNat),
    ("args", .array (Operand.encodeAll c.args)),
    ("implicit_object", .optional Operand.encode c.implicitObject),
    ("context", .optional .text c.context)]

/-- Decodes a call. -/
def decode : Json → Decoded (CallSite String) :=
  decodeRecord ["class", "method", "kind", "declared_params", "args", "implicit_object", "context"]
    false fun r =>
      CallSite.mk <$> r.required "class" decodeText <*> r.defaulted "method" decodeText ""
        <*> r.required "kind" (decodeName CallKind.names)
        <*> r.defaulted "declared_params" decodeWord64 0
        <*> r.defaulted "args" Operand.decodeArray []
        <*> r.optional "implicit_object" Operand.decode <*> r.optional "context" decodeText

end CallSite

namespace UnitFile

/-- A unit as a document. -/
def encode (u : UnitFile) : Json :=
  .record [("classes", .array (u.classes.map ClassDecl.encode)),
    ("expansions", .array (u.expansions.map ExpansionDecl.encode)),
    ("token_lengths", .array (u.tokenLengths.map TokenLengthDecl.encode)),
    ("calls", .array (u.calls.map CallSite.encode))]

/-- Decodes a unit. -/
def decode : Json → Decoded UnitFile :=
  decodeRecord ["classes", "expansions", "token_lengths", "calls"] false fun r =>
    UnitFile.mk <$> r.defaulted "classes" (decodeList ClassDecl.decode) []
      <*> r.defaulted "expansions" (decodeList ExpansionDecl.decode) []
      <*> r.defaulted "token_lengths" (decodeList TokenLengthDecl.decode) []
      <*> r.defaulted "calls" (decodeList CallSite.decode) []

/-- Decodes the text of a unit file. -/
def parse (text : String) : Decoded UnitFile :=
  decodeWith decode text

end UnitFile

/-! ## Uses -/

namespace UseRecord

/-- A use as a document; a context that is absent is left out. -/
def encode (u : UseRecord) : Json :=
  .record <| [("declaration", .text u.declaration), ("range", u.range.encode),
    ("kind", .text "call"), ("flavor", .text "use_address")] ++
    (u.context.map fun c => ("context", Json.text c)).toList

/-- Decodes a use. -/
def decode : Json → Decoded UseRecord :=
  decodeRecord ["declaration", "range", "kind", "flavor", "context"] false fun r =>
    (fun declaration range kind flavor context =>
        ({ declaration, range, kind, flavor, context } : UseRecord))
      <$> r.required "declaration" decodeText <*> r.required "range" SourceRange.decode
      <*> r.defaulted "kind" (decodeName [("call", UseKind.call)]) .call
      <*> r.defaulted "flavor" (decodeName [("use_address", UseFlavor.useAddress)]) .useAddress
      <*> r.optional "context" decodeText

end UseRecord

end SignalSlot
