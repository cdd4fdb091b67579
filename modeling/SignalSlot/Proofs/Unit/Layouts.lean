import SignalSlot.Proofs.Json.Layout
import SignalSlot.Unit.Document

set_option autoImplicit false

/-!
# Layouts of units

For each record of a unit, `slots` lists its fields with their values and
`IsLayout` says which documents are written for it: the fields in any order,
those left out that have their default or are absent, and any members of other
keys among them.  Operands are tagged, and a tag stands alone in its object.

Each record comes with two facts.  `isLayout_encode` says that the document that
is written for it is one of its layouts, and `complete` that every layout is
decoded to it.  `UnitFile.decode_layouts` states both for units and for uses.
-/

namespace SignalSlot

open Json

/-! ## Types and literals -/

namespace SourceRange

/-- The fields of a range. -/
def slots (r : SourceRange) : List Slot :=
  [.required "begin" (IsWord UInt32.toNat) r.start, .required "end" (IsWord UInt32.toNat) r.stop]

/-- The documents that are written for a range. -/
def IsLayout (r : SourceRange) : Json → Prop := IsRecord r.slots

theorem isLayout_encode (r : SourceRange) : r.IsLayout r.encode :=
  .of_forall₂ (.cons ⟨rfl, rfl⟩ (.cons ⟨rfl, rfl⟩ .nil))

theorem complete : Complete IsLayout decode := by
  rintro ⟨start, stop⟩ j h
  refine IsRecord.decode h rfl (by decide) (.seq (.map _ ?_) ?_)
  · exact .required (by simp [slots]) (Complete.word32 _)
  · exact .required (by simp [slots]) (Complete.word32 _)

end SourceRange

namespace TypeDesc

/-- The fields of a type. -/
def slots (ty : TypeDesc) : List Slot :=
  [.required "name" (IsFixed .text) ty.name, .defaulted "const" (IsFixed .bool) ty.isConst false,
    .defaulted "pointer" (IsWord UInt8.toNat) ty.pointer 0,
    .defaulted "reference" (IsFixed .bool) ty.reference false]

/-- The documents that are written for a type. -/
def IsLayout (ty : TypeDesc) : Json → Prop := IsRecord ty.slots

theorem isLayout_encode (ty : TypeDesc) : ty.IsLayout ty.encode :=
  .of_forall₂ (.cons ⟨rfl, rfl⟩ (.cons ⟨rfl, rfl⟩ (.cons ⟨rfl, rfl⟩ (.cons ⟨rfl, rfl⟩ .nil))))

theorem complete : Complete IsLayout decode := by
  rintro ⟨name, isConst, pointer, reference⟩ j h
  refine IsRecord.decode h rfl (by decide) (.seq (.seq (.seq (.map _ ?_) ?_) ?_) ?_)
  · exact .required (by simp [slots]) (Complete.text _)
  · exact .defaulted (by simp [slots]) (Complete.bool _)
  · exact .defaulted (by simp [slots]) (Complete.word8 _)
  · exact .defaulted (by simp [slots]) (Complete.bool _)

end TypeDesc

namespace StringLiteral

/-- The fields of a literal. -/
def slots (l : StringLiteral) : List Slot :=
  [.required "value" (IsFixed .text) l.value,
    .defaulted "char_width" (IsWord UInt8.toNat) l.charWidth 1,
    .required "range" SourceRange.IsLayout l.range,
    .defaulted "tokens" (IsArray (IsWord UInt32.toNat)) l.tokens []]

/-- The documents that are written for a literal. -/
def IsLayout (l : StringLiteral) : Json → Prop := IsRecord l.slots

theorem isLayout_encode (l : StringLiteral) : l.IsLayout l.encode :=
  .of_forall₂ (.cons ⟨rfl, rfl⟩ (.cons ⟨rfl, rfl⟩ (.cons ⟨rfl, l.range.isLayout_encode⟩
    (.cons ⟨rfl, isArray_map (isFixed_self _) l.tokens⟩ .nil))))

theorem complete : Complete IsLayout decode := by
  rintro ⟨value, charWidth, range, tokens⟩ j h
  refine IsRecord.decode h rfl (by decide) (.seq (.seq (.seq (.map _ ?_) ?_) ?_) ?_)
  · exact .required (by simp [slots]) (Complete.text _)
  · exact .defaulted (by simp [slots]) (Complete.word8 _)
  · exact .required (by simp [slots]) (SourceRange.complete _)
  · exact .defaulted (by simp [slots]) (Complete.word32.list _)

end StringLiteral

/-! ## Declarations -/

namespace ParamDecl

/-- The fields of a parameter. -/
def slots (p : ParamDecl) : List Slot :=
  [.required "type" TypeDesc.IsLayout p.type,
    .defaulted "default" (IsFixed .bool) p.hasDefault false]

/-- The documents that are written for a parameter. -/
def IsLayout (p : ParamDecl) : Json → Prop := IsRecord p.slots

theorem isLayout_encode (p : ParamDecl) : p.IsLayout p.encode :=
  .of_forall₂ (.cons ⟨rfl, p.type.isLayout_encode⟩ (.cons ⟨rfl, rfl⟩ .nil))

theorem complete : Complete IsLayout decode := by
  rintro ⟨type, hasDefault⟩ j h
  refine IsRecord.decode h rfl (by decide) (.seq (.map _ ?_) ?_)
  · exact .required (by simp [slots]) (TypeDesc.complete _)
  · exact .defaulted (by simp [slots]) (Complete.bool _)

end ParamDecl

namespace MethodDecl

/-- The fields of a method. -/
def slots (m : MethodDecl) : List Slot :=
  [.optional "name" (IsFixed .text) m.name,
    .defaulted "params" (IsArray ParamDecl.IsLayout) m.params [],
    .optional "returns" TypeDesc.IsLayout m.returns]

/-- The documents that are written for a method. -/
def IsLayout (m : MethodDecl) : Json → Prop := IsRecord m.slots

theorem isLayout_encode (m : MethodDecl) : m.IsLayout m.encode :=
  .of_forall₂ (.cons ⟨rfl, isOptional_optional (isFixed_self _) m.name⟩
    (.cons ⟨rfl, isArray_map ParamDecl.isLayout_encode m.params⟩
      (.cons ⟨rfl, isOptional_optional TypeDesc.isLayout_encode m.returns⟩ .nil)))

theorem complete : Complete IsLayout decode := by
  rintro ⟨name, params, returns⟩ j h
  refine IsRecord.decode h rfl (by decide) (.seq (.seq (.map _ ?_) ?_) ?_)
  · exact .field (by simp [slots]) Complete.text nofun
  · exact .defaulted (by simp [slots]) (ParamDecl.complete.list _)
  · exact .field (by simp [slots]) TypeDesc.complete nofun

end MethodDecl

namespace ClassDecl

/-- The fields of a class. -/
def slots (c : ClassDecl) : List Slot :=
  [.required "name" (IsFixed .text) c.name, .defaulted "defined" (IsFixed .bool) c.defined true,
    .defaulted "bases" (IsArray (IsFixed .text)) c.bases [],
    .defaulted "methods" (IsArray MethodDecl.IsLayout) c.methods []]

/-- The documents that are written for a class. -/
def IsLayout (c : ClassDecl) : Json → Prop := IsRecord c.slots

theorem isLayout_encode (c : ClassDecl) : c.IsLayout c.encode :=
  .of_forall₂ (.cons ⟨rfl, rfl⟩ (.cons ⟨rfl, rfl⟩
    (.cons ⟨rfl, isArray_map (isFixed_self _) c.bases⟩
      (.cons ⟨rfl, isArray_map MethodDecl.isLayout_encode c.methods⟩ .nil))))

theorem complete : Complete IsLayout decode := by
  rintro ⟨name, defined, bases, methods⟩ j h
  refine IsRecord.decode h rfl (by decide) (.seq (.seq (.seq (.map _ ?_) ?_) ?_) ?_)
  · exact .required (by simp [slots]) (Complete.text _)
  · exact .defaulted (by simp [slots]) (Complete.bool _)
  · exact .defaulted (by simp [slots]) (Complete.text.list _)
  · exact .defaulted (by simp [slots]) (MethodDecl.complete.list _)

end ClassDecl

namespace ExpansionDecl

/-- The fields of an expansion entry. -/
def slots (e : ExpansionDecl) : List Slot :=
  [.required "location" (IsWord UInt32.toNat) e.location,
    .required "begin" (IsWord UInt32.toNat) e.start, .required "end" (IsWord UInt32.toNat) e.stop]

/-- The documents that are written for an expansion entry. -/
def IsLayout (e : ExpansionDecl) : Json → Prop := IsRecord e.slots

theorem isLayout_encode (e : ExpansionDecl) : e.IsLayout e.encode :=
  .of_forall₂ (.cons ⟨rfl, rfl⟩ (.cons ⟨rfl, rfl⟩ (.cons ⟨rfl, rfl⟩ .nil)))

theorem complete : Complete IsLayout decode := by
  rintro ⟨location, start, stop⟩ j h
  refine IsRecord.decode h rfl (by decide) (.seq (.seq (.map _ ?_) ?_) ?_)
  · exact .required (by simp [slots]) (Complete.word32 _)
  · exact .required (by simp [slots]) (Complete.word32 _)
  · exact .required (by simp [slots]) (Complete.word32 _)

end ExpansionDecl

namespace TokenLengthDecl

/-- The fields of a token length. -/
def slots (t : TokenLengthDecl) : List Slot :=
  [.required "location" (IsWord UInt32.toNat) t.location,
    .required "length" (IsWord UInt32.toNat) t.length]

/-- The documents that are written for a token length. -/
def IsLayout (t : TokenLengthDecl) : Json → Prop := IsRecord t.slots

theorem isLayout_encode (t : TokenLengthDecl) : t.IsLayout t.encode :=
  .of_forall₂ (.cons ⟨rfl, rfl⟩ (.cons ⟨rfl, rfl⟩ .nil))

theorem complete : Complete IsLayout decode := by
  rintro ⟨location, length⟩ j h
  refine IsRecord.decode h rfl (by decide) (.seq (.map _ ?_) ?_)
  · exact .required (by simp [slots]) (Complete.word32 _)
  · exact .required (by simp [slots]) (Complete.word32 _)

end TokenLengthDecl

/-! ## Operands -/

namespace Operand

/-- The fields of an object operand. -/
def objectSlots (ofClass : Option String) (pointer : Bool) : List Slot :=
  [.optional "class" (IsFixed .text) ofClass, .defaulted "pointer" (IsFixed .bool) pointer false]

mutual

/-- The documents that are written for an operand. -/
def IsLayout : Operand String → Json → Prop
  | .object ofClass pointer => IsTagged "object" (IsRecord (objectSlots ofClass pointer))
  | .literal value => IsTagged "literal" value.IsLayout
  | .call callee args =>
    IsTagged "call" (IsRecord [.required "callee" (IsFixed .text) callee,
      ⟨"args", fun j => ∃ vs, j = .array vs ∧ AreLayouts args vs, args = []⟩])
  | .other => IsFixed .text "other"

/-- The documents that are written for operands, one by one. -/
def AreLayouts : List (Operand String) → List Json → Prop
  | [], vs => vs = []
  | operand :: rest, vs =>
    ∃ v others, vs = v :: others ∧ operand.IsLayout v ∧ AreLayouts rest others

end

theorem areLayouts_iff_forall₂ (operands : List (Operand String)) (vs : List Json) :
    AreLayouts operands vs ↔ List.Forall₂ IsLayout operands vs := by
  induction operands generalizing vs with
  | nil => rw [AreLayouts, List.forall₂_nil_left_iff]
  | cons operand rest ih =>
    rw [AreLayouts, List.forall₂_cons_left_iff]
    constructor
    · rintro ⟨v, others, rfl, hv, hothers⟩
      exact ⟨v, others, hv, (ih others).1 hothers, rfl⟩
    · rintro ⟨v, others, hv, hothers, rfl⟩
      exact ⟨v, others, rfl, hv, (ih others).2 hothers⟩

/-- The fields of a call operand. -/
def callSlots (callee : String) (args : List (Operand String)) : List Slot :=
  [.required "callee" (IsFixed .text) callee, .defaulted "args" (IsArray IsLayout) args []]

theorem isLayout_call (callee : String) (args : List (Operand String)) :
    IsLayout (.call callee args) = IsTagged "call" (IsRecord (callSlots callee args)) := by
  have hargs : (fun j => ∃ vs, j = .array vs ∧ AreLayouts args vs) = IsArray IsLayout args := by
    funext j
    simp only [areLayouts_iff_forall₂, IsArray]
  rw [IsLayout, hargs]
  rfl

mutual

theorem isLayout_encode : ∀ operand : Operand String, operand.IsLayout operand.encode
  | .object ofClass pointer => by
    rw [IsLayout, encode]
    refine ⟨_, ?_, rfl⟩
    exact .of_forall₂ (.cons ⟨rfl, isOptional_optional (isFixed_self _) ofClass⟩
      (.cons ⟨rfl, rfl⟩ .nil))
  | .literal value => by
    rw [IsLayout, encode]
    exact ⟨_, value.isLayout_encode, rfl⟩
  | .call callee args => by
    rw [isLayout_call, encode]
    refine ⟨_, ?_, rfl⟩
    exact .of_forall₂ (.cons ⟨rfl, rfl⟩ (.cons ⟨rfl, _, rfl, forall₂_encodeAll args⟩ .nil))
  | .other => by
    rw [IsLayout, encode]
    rfl

theorem forall₂_encodeAll :
    ∀ operands : List (Operand String), List.Forall₂ IsLayout operands (encodeAll operands)
  | [] => .nil
  | operand :: rest => .cons operand.isLayout_encode (forall₂_encodeAll rest)

end

/-- The members of an object, read as lists too, are members of other values. -/
theorem membersAsLists_named (members : List (String × Json)) :
    membersAsLists (named id members) = named (fun v => (v, decodeArray v)) members := by
  induction members with
  | nil => simp [named, membersAsLists]
  | cons m rest ih =>
    simp only [named, List.map_cons, membersAsLists] at ih ⊢
    rw [ih]
    rfl

theorem decodeObject_of_isRecord {ofClass : Option String} {pointer : Bool} {j : Json}
    (h : IsRecord (objectSlots ofClass pointer) j) :
    decodeObject j = .ok (.object ofClass pointer) := by
  refine IsRecord.decode h rfl (by decide) (.seq (.map _ ?_) ?_)
  · exact .field (by simp [objectSlots]) Complete.text nofun
  · exact .defaulted (by simp [objectSlots]) (Complete.bool _)

/-- A call operand is decoded once its arguments are. -/
theorem decodeCallOf_of_isRecord {callee : String} {args : List (Operand String)} {j : Json}
    (h : IsRecord (callSlots callee args) j)
    (hargs : ∀ v, IsArray IsLayout args v → decodeArray v = .ok args) :
    decodeCallOf j = .ok (.call callee args) := by
  obtain ⟨members, hmembers, rfl⟩ := h
  show decodeCallOf (.object (named id members)) = _
  rw [decodeCallOf, membersAsLists_named]
  have hyields : Yields (fun v => (v, decodeArray v)) (callSlots callee args)
      (fun r => Operand.call <$> r.required "callee" (fun v => decodeText v.1)
        <*> r.defaulted "args" (fun v => v.2) []) (.call callee args) := by
    refine .seq (.map _ ?_) ?_
    · exact .required (by simp [callSlots]) (Complete.text _)
    · exact .defaulted (by simp [callSlots]) hargs
  have hkeys : ((callSlots callee args).map (·.key)).Nodup :=
    show ["callee", "args"].Nodup by decide
  exact finish_ofMembers hmembers hkeys hyields fun _ => rfl

theorem only_ok (operand : Operand String) : only (.ok operand) [] = .ok operand := rfl

mutual

theorem decode_of_isLayout :
    ∀ (operand : Operand String) (j : Json), operand.IsLayout j → decode j = .ok operand
  | .object ofClass pointer, j, h => by
    rw [IsLayout] at h
    obtain ⟨content, hcontent, rfl⟩ := h
    simp [record, decode, decodeObject_of_isRecord hcontent, only_ok]
  | .literal value, j, h => by
    rw [IsLayout] at h
    obtain ⟨content, hcontent, rfl⟩ := h
    simp [record, decode, StringLiteral.complete _ _ hcontent, only_ok]
  | .call callee args, j, h => by
    rw [isLayout_call] at h
    obtain ⟨content, hcontent, rfl⟩ := h
    have hargs : ∀ v, IsArray IsLayout args v → decodeArray v = .ok args := by
      rintro _ ⟨vs, rfl, hvs⟩
      exact decodeAll_of_forall₂ args vs hvs
    simp [record, decode, decodeCallOf_of_isRecord hcontent hargs, only_ok]
  | .other, j, h => by
    rw [IsLayout] at h
    obtain rfl : j = .text "other" := h
    simp [text, decode]

theorem decodeAll_of_forall₂ :
    ∀ (operands : List (Operand String)) (vs : List Json), List.Forall₂ IsLayout operands vs →
      decodeAll vs = .ok operands
  | [], _, .nil => by rw [decodeAll]
  | operand :: rest, _, .cons hv hrest => by
    rw [decodeAll, decode_of_isLayout operand _ hv, decodeAll_of_forall₂ rest _ hrest]
    rfl

end

theorem complete : Complete IsLayout decode :=
  decode_of_isLayout

theorem completeArray : Complete (IsArray IsLayout) decodeArray := by
  rintro operands _ ⟨vs, rfl, hvs⟩
  exact decodeAll_of_forall₂ operands vs hvs

end Operand

/-! ## Calls and units -/

/-- The name of a form of call is decoded. -/
theorem CallKind.complete :
    Complete (IsFixed fun kind : CallKind => .text kind.text) (decodeName CallKind.names) := by
  rintro kind _ rfl
  cases kind <;> rfl

namespace CallSite

/-- The fields of a call. -/
def slots (c : CallSite String) : List Slot :=
  [.required "class" (IsFixed .text) c.className,
    .defaulted "method" (IsFixed .text) c.methodName "",
    .required "kind" (IsFixed fun kind => .text kind.text) c.kind,
    .defaulted "declared_params" (IsWord UInt64.toNat) c.declaredParams 0,
    .defaulted "args" (IsArray Operand.IsLayout) c.args [],
    .optional "implicit_object" Operand.IsLayout c.implicitObject,
    .optional "context" (IsFixed .text) c.context]

/-- The documents that are written for a call. -/
def IsLayout (c : CallSite String) : Json → Prop := IsRecord c.slots

theorem isLayout_encode (c : CallSite String) : c.IsLayout c.encode :=
  .of_forall₂ (.cons ⟨rfl, rfl⟩ (.cons ⟨rfl, rfl⟩ (.cons ⟨rfl, rfl⟩ (.cons ⟨rfl, rfl⟩
    (.cons ⟨rfl, _, rfl, Operand.forall₂_encodeAll c.args⟩
      (.cons ⟨rfl, isOptional_optional Operand.isLayout_encode c.implicitObject⟩
        (.cons ⟨rfl, isOptional_optional (isFixed_self _) c.context⟩ .nil)))))))

theorem complete : Complete IsLayout decode := by
  rintro ⟨className, methodName, kind, declaredParams, args, implicitObject, context⟩ j h
  refine IsRecord.decode h rfl (by decide)
    (.seq (.seq (.seq (.seq (.seq (.seq (.map _ ?_) ?_) ?_) ?_) ?_) ?_) ?_)
  · exact .required (by simp [slots]) (Complete.text _)
  · exact .defaulted (by simp [slots]) (Complete.text _)
  · exact .required (by simp [slots]) (CallKind.complete _)
  · exact .defaulted (by simp [slots]) (Complete.word64 _)
  · exact .defaulted (by simp [slots]) (Operand.completeArray _)
  · exact .field (by simp [slots]) Operand.complete nofun
  · exact .field (by simp [slots]) Complete.text nofun

end CallSite

namespace UnitFile

/-- The fields of a unit. -/
def slots (u : UnitFile) : List Slot :=
  [.defaulted "classes" (IsArray ClassDecl.IsLayout) u.classes [],
    .defaulted "expansions" (IsArray ExpansionDecl.IsLayout) u.expansions [],
    .defaulted "token_lengths" (IsArray TokenLengthDecl.IsLayout) u.tokenLengths [],
    .defaulted "calls" (IsArray CallSite.IsLayout) u.calls []]

/-- The documents that are written for a unit. -/
def IsLayout (u : UnitFile) : Json → Prop := IsRecord u.slots

theorem isLayout_encode (u : UnitFile) : u.IsLayout u.encode :=
  .of_forall₂ (.cons ⟨rfl, isArray_map ClassDecl.isLayout_encode u.classes⟩
    (.cons ⟨rfl, isArray_map ExpansionDecl.isLayout_encode u.expansions⟩
      (.cons ⟨rfl, isArray_map TokenLengthDecl.isLayout_encode u.tokenLengths⟩
        (.cons ⟨rfl, isArray_map CallSite.isLayout_encode u.calls⟩ .nil))))

theorem complete : Complete IsLayout decode := by
  rintro ⟨classes, expansions, tokenLengths, calls⟩ j h
  refine IsRecord.decode h rfl (by decide) (.seq (.seq (.seq (.map _ ?_) ?_) ?_) ?_)
  · exact .defaulted (by simp [slots]) (ClassDecl.complete.list _)
  · exact .defaulted (by simp [slots]) (ExpansionDecl.complete.list _)
  · exact .defaulted (by simp [slots]) (TokenLengthDecl.complete.list _)
  · exact .defaulted (by simp [slots]) (CallSite.complete.list _)

end UnitFile

/-! ## Uses -/

theorem UseKind.complete :
    Complete (IsFixed fun _ : UseKind => .text "call") (decodeName [("call", UseKind.call)]) := by
  rintro ⟨⟩ _ rfl
  rfl

theorem UseFlavor.complete :
    Complete (IsFixed fun _ : UseFlavor => .text "use_address")
      (decodeName [("use_address", UseFlavor.useAddress)]) := by
  rintro ⟨⟩ _ rfl
  rfl

namespace UseRecord

/-- The fields of a use. -/
def slots (u : UseRecord) : List Slot :=
  [.required "declaration" (IsFixed .text) u.declaration,
    .required "range" SourceRange.IsLayout u.range,
    .defaulted "kind" (IsFixed fun _ => .text "call") u.kind .call,
    .defaulted "flavor" (IsFixed fun _ => .text "use_address") u.flavor .useAddress,
    .optional "context" (IsFixed .text) u.context]

/-- The documents that are written for a use. -/
def IsLayout (u : UseRecord) : Json → Prop := IsRecord u.slots

/-- A context that is absent is left out, and everything else is written. -/
theorem isLayout_encode (u : UseRecord) : u.IsLayout (encode u) := by
  obtain ⟨declaration, range, kind, context, flavor⟩ := u
  cases context with
  | some c =>
    exact .of_forall₂ (.cons ⟨rfl, rfl⟩ (.cons ⟨rfl, range.isLayout_encode⟩ (.cons ⟨rfl, rfl⟩
      (.cons ⟨rfl, rfl⟩ (.cons ⟨rfl, rfl⟩ .nil)))))
  | none =>
    have hkept : Kept (slots ⟨declaration, range, kind, none, flavor⟩)
        [("declaration", .text declaration), ("range", range.encode), ("kind", .text "call"),
          ("flavor", .text "use_address")] :=
      .write rfl (.write range.isLayout_encode (.write rfl (.write rfl (.leaveOut rfl .nil))))
    exact ⟨_, ⟨_, [], hkept, nofun, .refl _⟩, rfl⟩

theorem complete : Complete IsLayout decode := by
  rintro ⟨declaration, range, kind, context, flavor⟩ j h
  refine IsRecord.decode h rfl (by decide) (.seq (.seq (.seq (.seq (.map _ ?_) ?_) ?_) ?_) ?_)
  · exact .required (by simp [slots]) (Complete.text _)
  · exact .required (by simp [slots]) (SourceRange.complete _)
  · exact .defaulted (by simp [slots]) (UseKind.complete _)
  · exact .defaulted (by simp [slots]) (UseFlavor.complete _)
  · exact .field (by simp [slots]) Complete.text nofun

end UseRecord

namespace UnitFile

/--
Units and uses are decoded to what was encoded, however they are laid out: the
document that is written is a layout, and every layout is decoded.
-/
theorem decode_layouts :
    (∀ u : UnitFile, u.IsLayout u.encode ∧ ∀ j, u.IsLayout j → decode j = .ok u) ∧
    ∀ use : UseRecord, UseRecord.IsLayout use (UseRecord.encode use) ∧
      ∀ j, UseRecord.IsLayout use j → UseRecord.decode j = .ok use := by
  constructor
  · intro u
    exact ⟨u.isLayout_encode, complete u⟩
  · intro use
    exact ⟨use.isLayout_encode, UseRecord.complete use⟩

/-- A signature that is wrapped in a call. -/
def wrappedSignature : Operand String :=
  .call "qFlagLocation" [.literal (.narrow "1accept()" ⟨20, 31⟩)]

/-- The same operand with the keys of its records reversed and defaults left out. -/
def wrappedSignatureDocument : Json :=
  .record [("call", .record [
    ("args", .array [.record [("literal", .record [
      ("range", .record [("end", .nat 31), ("begin", .nat 20)]),
      ("value", .text "1accept()")])]]),
    ("callee", .text "qFlagLocation")])]

theorem isLayout_wrappedSignatureDocument :
    wrappedSignature.IsLayout wrappedSignatureDocument := by
  have hrange : SourceRange.IsLayout ⟨20, 31⟩ (.record [("end", .nat 31), ("begin", .nat 20)]) :=
    ⟨_, ⟨_, [], .write rfl (.write rfl .nil), nofun, List.reverse_perm _⟩, rfl⟩
  rw [wrappedSignature, Operand.isLayout_call]
  refine ⟨_, ⟨_, ⟨_, [], .write rfl (.write ⟨_, rfl, .cons ?_ .nil⟩ .nil), nofun,
    List.reverse_perm _⟩, rfl⟩, rfl⟩
  rw [Operand.IsLayout]
  exact ⟨_, ⟨_, ⟨_, [], .write rfl (.leaveOut rfl (.write hrange (.leaveOut rfl .nil))), nofun,
    List.reverse_perm _⟩, rfl⟩, rfl⟩

/-- A unit of one call. -/
def wrappedSlot : UnitFile where
  calls := [{ className := "QTimer", kind := .static, args := [.other, wrappedSignature] }]

/-- The same unit with its keys reversed, defaults left out and two keys added. -/
def wrappedSlotDocument : Json :=
  .record [("origin", .array [.null]),
    ("calls", .array [.record [
      ("line", .nat 7),
      ("args", .array [.text "other", wrappedSignatureDocument]),
      ("kind", .text "static"),
      ("class", .text "QTimer")]])]

theorem decode_layouts_wrappedSlot :
    wrappedSlot.IsLayout wrappedSlotDocument ∧
    decode wrappedSlotDocument = .ok wrappedSlot ∧
    UseRecord.decode (UseRecord.encode { declaration := "Dialog::accept()", range := ⟨20, 31⟩ }) =
      .ok { declaration := "Dialog::accept()", range := ⟨20, 31⟩ } := by
  have hlayout : wrappedSlot.IsLayout wrappedSlotDocument := by
    refine ⟨_, ⟨_, [("origin", .array [.null])], .leaveOut rfl (.leaveOut rfl (.leaveOut rfl
      (.write ⟨_, rfl, .cons ?_ .nil⟩ .nil))), ?_, List.reverse_perm _⟩, rfl⟩
    · refine ⟨_, ⟨_, [("line", .nat 7)], .write rfl (.leaveOut rfl (.write rfl (.leaveOut rfl
        (.write ⟨_, rfl, .cons ?_ (.cons ?_ .nil)⟩ (.leaveOut rfl (.leaveOut rfl .nil)))))), ?_,
        List.reverse_perm _⟩, rfl⟩
      · exact Operand.isLayout_encode .other
      · exact isLayout_wrappedSignatureDocument
      · exact List.forall_mem_singleton.2 (by decide)
    · exact List.forall_mem_singleton.2 (by decide)
  obtain ⟨hunits, huses⟩ := decode_layouts
  exact ⟨hlayout, (hunits wrappedSlot).2 _ hlayout, (huses _).2 _ (huses _).1⟩

end UnitFile

end SignalSlot
