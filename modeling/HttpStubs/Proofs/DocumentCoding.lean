import HttpStubs.Proofs.RecordCoding

/-!
# The coding of documents

How each record of a document is written: its members in order, with those of its docs among them
and without the optional ones that are absent (`isObject_encode`). As the names do not clash, this
is a plain value if there is room for the types of its fields (`plain_encode`), and the record is
read back from it (`reads_document` and the lemmas before it). For types all this is an induction on
the type; for a record it follows from its fields.
-/

namespace HttpStubs.Service

open Json (Decoder HasForm IsArray IsBool IsObject IsRecord IsString MemberForm Members Plain Reads
  knownMembers? lookup_member recordMembers?_object reads_bool reads_string reads_uint16
  strictMembers?_object)

/-! ## Optional members and docs -/

theorem hasForm_optionalMember {α : Type} {encode : α → Json} {form : Json → Prop}
    (name : String) (value : Option α) (h : ∀ x, form (encode x)) :
    HasForm [⟨name, form, true⟩] (optionalMember name (value.map encode)) := by
  cases value with
  | none => exact .leftOut rfl .nil
  | some x => exact .given (h x) .nil

theorem plain_optionalMember {α : Type} {encode : α → Json} {value : Option α} {room : Nat}
    (name : String) (h : ∀ x ∈ value, Plain room (encode x)) :
    ∀ m ∈ optionalMember name (value.map encode), Plain room m.2 := by
  cases value with
  | none => simp [optionalMember]
  | some x => simpa [optionalMember] using h

@[simp] theorem lookup_optionalMember (key name : String) (value : Option Json) :
    (optionalMember name value).lookup key = if key = name then value else none := by
  cases value with
  | none => simp [optionalMember]
  | some j => exact lookup_member key name j []

theorem isArray_encodeList {α : Type} {encode : α → Json} {form : Json → Prop} (xs : List α)
    (h : ∀ x, form (encode x)) : IsArray form (encodeList encode xs) := by
  intro j hj
  obtain ⟨x, -, rfl⟩ := List.mem_map.1 hj
  exact h x

theorem plain_encodeList {α : Type} {encode : α → Json} {xs : List α} {room : Nat}
    (h : ∀ x ∈ xs, Plain room (encode x)) : Plain (room + 1) (encodeList encode xs) :=
  .array (by simpa using h)

theorem isString_string (s : String) : IsString (.string s) :=
  ⟨s, rfl⟩

theorem isBool_bool (b : Bool) : IsBool (.bool b) :=
  ⟨b, rfl⟩

/-- How docs are written among the members of their owner. -/
def Docs.forms : List MemberForm :=
  [⟨"summary", IsString, true⟩, ⟨"obsolete", IsBool, false⟩, ⟨"obsoleteMessage", IsString, true⟩]

theorem Docs.hasForm_encode (d : Docs) : HasForm Docs.forms d.encode := by
  have hsummary := hasForm_optionalMember "summary" d.summary isString_string
  have hmessage := hasForm_optionalMember "obsoleteMessage" d.obsoleteMessage isString_string
  exact (hsummary.append (.given (isBool_bool d.obsolete) .nil)).append hmessage

theorem Docs.plain_encode (d : Docs) (room : Nat) : ∀ m ∈ d.encode, Plain room m.2 := by
  rw [Docs.encode, List.forall_mem_append, List.forall_mem_append]
  exact ⟨⟨plain_optionalMember _ fun s _ => .string s, by simpa using .bool d.obsolete⟩,
    plain_optionalMember _ fun s _ => .string s⟩

@[simp] theorem Docs.lookup_encode (d : Docs) (name : String) :
    d.encode.lookup name =
      if name = "summary" then d.summary.map .string
      else if name = "obsolete" then some (.bool d.obsolete)
      else if name = "obsoleteMessage" then d.obsoleteMessage.map .string
      else none := by
  simp only [Docs.encode, List.lookup_append, lookup_optionalMember, lookup_member, List.lookup_nil]
  split_ifs <;> simp_all

/-- Docs are read from members among which theirs stand. -/
theorem Docs.ofMembers_eq (d : Docs) {members : Members} {room : Nat}
    (values : ∀ m ∈ members, Plain room m.2)
    (h : ∀ name ∈ Docs.fields, members.lookup name = d.encode.lookup name) :
    Docs.ofMembers room members = some d := by
  have hlookup : ∀ name ∈ Docs.fields, members.lookup name = _ :=
    fun name hname => (h name hname).trans (d.lookup_encode name)
  have hsummary := reads_string.optional values "summary" d.summary (hlookup _ (by decide))
  have hobsolete := reads_bool.withDefault values "obsolete" d.obsolete false
    (hlookup _ (by decide))
  have hmessage := reads_string.optional values "obsoleteMessage" d.obsoleteMessage
    (hlookup _ (by decide))
  rw [Docs.ofMembers, hsummary, hobsolete, hmessage]
  rfl

/-! ## Types -/

/-- How deep the value of a type nests. -/
def ValueType.nesting : ValueType → Nat
  | .result value | .array value | .map value | .nullable value => value.nesting + 1
  | _ => 1

/-- How types are written: tagged by their kind, with the name or the element type that it takes. -/
inductive TypeForm : Json → Prop
  | plain {kind : String} (known : kind ∈ ["string", "bytes", "boolean", "int32", "int64", "double",
      "decimal", "object", "error"]) : TypeForm (.object [("kind", .string kind)])
  | named {kind : String} (name : String) (known : kind ∈ ["dto", "enum"]) :
      TypeForm (.object [("kind", .string kind), ("name", .string name)])
  | container {kind : String} {j : Json} (known : kind ∈ ["result", "array", "map", "nullable"])
      (value : TypeForm j) : TypeForm (.object [("kind", .string kind), ("value", j)])

theorem ValueType.typeForm_encode (t : ValueType) : TypeForm t.encode := by
  induction t with
  | result value ih | array value ih | map value ih | nullable value ih =>
    exact .container (by decide) ih
  | dto name | enum name => exact .named name (by decide)
  | _ => exact .plain (by decide)

theorem decodeKind_plain (nested : Bool) (room : Nat) {kind : String} {type : ValueType}
    (h : TypeKind.all.lookup kind = some (.plain type)) :
    ValueType.decodeKind nested (room + 1) (.object [("kind", .string kind)]) = some type := by
  simp [ValueType.decodeKind, knownMembers?, TypeKind.decode, h]

theorem decodeKind_named (nested : Bool) (room : Nat) {kind : String} {type : String → ValueType}
    (h : TypeKind.all.lookup kind = some (.named type)) (name : String) :
    ValueType.decodeKind nested (room + 1)
      (.object [("kind", .string kind), ("name", .string name)]) = some (type name) := by
  simp [ValueType.decodeKind, knownMembers?, TypeKind.decode, h, Decoder.string]

theorem decodeKind_container (nested : Bool) (room : Nat) {kind : String}
    {type : ValueType → ValueType} (h : TypeKind.all.lookup kind = some (.container type))
    (j : Json) :
    ValueType.decodeKind nested (room + 1) (.object [("kind", .string kind), ("value", j)]) =
      (ValueType.decodeKind true room j).map type := by
  simp [ValueType.decodeKind, knownMembers?, TypeKind.decode, h]

theorem decodeKind_encode (t : ValueType) (nested : Bool) {room : Nat} (h : Plain room t.encode) :
    ValueType.decodeKind nested room t.encode = some t := by
  induction t generalizing nested room with
  | result value ih | array value ih | map value ih | nullable value ih =>
    unfold ValueType.encode at h ⊢
    cases h with
    | object distinct values =>
      rw [decodeKind_container nested _ rfl, ih true (values ("value", value.encode) (by simp))]
      rfl
  | dto name | enum name =>
    cases h
    exact decodeKind_named nested _ rfl name
  | _ =>
    cases h
    exact decodeKind_plain nested _ rfl

theorem reads_valueType : Reads ValueType.decode ValueType.encode := by
  intro room t hplain
  rw [ValueType.decode, if_pos hplain.fits]
  exact decodeKind_encode t false hplain

theorem ValueType.plain_encode (t : ValueType) {room : Nat} (h : t.nesting ≤ room) :
    Plain room t.encode := by
  induction t generalizing room with
  | result value ih | array value ih | map value ih | nullable value ih =>
    have hroom : 1 ≤ room := Nat.le_of_add_left_le h
    obtain ⟨less, rfl⟩ : ∃ less, room = less + 1 := Nat.exists_eq_add_of_le' hroom
    have hvalue := ih (Nat.le_of_succ_le_succ h)
    exact .object (by simp) (by simpa using ⟨.string _, hvalue⟩)
  | dto name | enum name =>
    obtain ⟨less, rfl⟩ : ∃ less, room = less + 1 := Nat.exists_eq_add_of_le' h
    exact .object (by simp) (by simpa using ⟨.string _, .string name⟩)
  | _ =>
    obtain ⟨less, rfl⟩ : ∃ less, room = less + 1 := Nat.exists_eq_add_of_le' h
    exact .object (by simp) (by simpa using .string _)

/-! ## Service definitions -/

/-- How a field is written. -/
def Field.forms : List MemberForm :=
  [⟨"name", IsString, false⟩, ⟨"type", TypeForm, false⟩, ⟨"required", IsBool, false⟩] ++ Docs.forms

theorem Field.isObject_encode (f : Field) : IsObject Field.forms f.encode := by
  apply HasForm.append _ f.docs.hasForm_encode
  exact .given (isString_string f.name) (.given f.type.typeForm_encode
    (.given (isBool_bool f.required) .nil))

theorem Field.isRecord_encode (f : Field) :
    IsRecord (["name", "type", "required"] ++ Docs.fields) f.encode :=
  f.isObject_encode.isRecord (by decide) (by decide)

theorem Field.plain_encode (f : Field) {room : Nat} (h : f.type.nesting ≤ room) :
    Plain (room + 1) f.encode := by
  apply f.isRecord_encode.plain
  rw [List.forall_mem_append]
  refine ⟨?_, f.docs.plain_encode room⟩
  simpa using ⟨.string f.name, f.type.plain_encode h, .bool f.required⟩

theorem reads_field : Reads Field.decode Field.encode := by
  intro room f hplain
  have hrecord := f.isRecord_encode
  unfold Field.encode at hplain hrecord ⊢
  cases hplain with
  | @object room _ _ values =>
    have hname := reads_string.required values "name" f.name (by simp)
    have htype := reads_valueType.required values "type" f.type (by simp [lookup_member])
    have hrequired := reads_bool.withDefault values "required" f.required false
      (by simp [lookup_member])
    have hdocs := f.docs.ofMembers_eq values (by simp [lookup_member, Docs.fields])
    rw [Field.decode, strictMembers?_object hrecord]
    simp only [Option.bind_eq_bind, Option.bind_some, hname, htype, hrequired, hdocs]
    rfl

/-- How a record type is written. -/
def Dto.forms : List MemberForm :=
  [⟨"name", IsString, false⟩] ++ Docs.forms ++ [⟨"fields", IsArray (IsObject Field.forms), false⟩]

theorem Dto.isObject_encode (d : Dto) : IsObject Dto.forms d.encode := by
  have hfields := isArray_encodeList d.fields Field.isObject_encode
  apply HasForm.append _ (.given hfields .nil)
  exact HasForm.append (.given (isString_string d.name) .nil) d.docs.hasForm_encode

theorem Dto.isRecord_encode (d : Dto) : IsRecord (["name", "fields"] ++ Docs.fields) d.encode :=
  d.isObject_encode.isRecord (by decide) (by decide)

theorem Dto.plain_encode (d : Dto) {room : Nat} (h : ∀ f ∈ d.fields, f.type.nesting ≤ room) :
    Plain (room + 3) d.encode := by
  apply d.isRecord_encode.plain
  rw [List.forall_mem_append, List.forall_mem_append]
  refine ⟨⟨by simpa using .string d.name, d.docs.plain_encode _⟩, ?_⟩
  simpa using plain_encodeList fun f hf => f.plain_encode (h f hf)

theorem reads_dto : Reads Dto.decode Dto.encode := by
  intro room d hplain
  have hrecord := d.isRecord_encode
  unfold Dto.encode at hplain hrecord ⊢
  cases hplain with
  | @object room _ _ values =>
    have hname := reads_string.required values "name" d.name (by simp)
    have hdocs := d.docs.ofMembers_eq values
      (by simp [lookup_member, List.lookup_append, Docs.fields])
    have hfields := reads_field.list.withDefault values "fields" d.fields []
      (by simp [lookup_member, List.lookup_append])
    rw [Dto.decode, strictMembers?_object hrecord]
    simp only [Option.bind_eq_bind, Option.bind_some, hname, hdocs, hfields]
    rfl

/-- How a value of an enum is written. -/
def EnumValue.forms : List MemberForm :=
  [⟨"name", IsString, false⟩] ++ Docs.forms

theorem EnumValue.isObject_encode (v : EnumValue) : IsObject EnumValue.forms v.encode :=
  HasForm.append (.given (isString_string v.name) .nil) v.docs.hasForm_encode

theorem EnumValue.isRecord_encode (v : EnumValue) : IsRecord (["name"] ++ Docs.fields) v.encode :=
  v.isObject_encode.isRecord (by decide) (by decide)

theorem EnumValue.plain_encode (v : EnumValue) (room : Nat) : Plain (room + 1) v.encode := by
  apply v.isRecord_encode.plain
  rw [List.forall_mem_append]
  exact ⟨by simpa using .string v.name, v.docs.plain_encode _⟩

theorem reads_enumValue : Reads EnumValue.decode EnumValue.encode := by
  intro room v hplain
  have hrecord := v.isRecord_encode
  unfold EnumValue.encode at hplain hrecord ⊢
  cases hplain with
  | @object room _ _ values =>
    have hname := reads_string.required values "name" v.name (by simp)
    have hdocs := v.docs.ofMembers_eq values (by simp [lookup_member, Docs.fields])
    rw [EnumValue.decode, strictMembers?_object hrecord]
    simp only [Option.bind_eq_bind, Option.bind_some, hname, hdocs]
    rfl

/-- How an enum type is written. -/
def EnumType.forms : List MemberForm :=
  [⟨"name", IsString, false⟩] ++ Docs.forms ++
    [⟨"values", IsArray (IsObject EnumValue.forms), false⟩]

theorem EnumType.isObject_encode (e : EnumType) : IsObject EnumType.forms e.encode := by
  have hvalues := isArray_encodeList e.values EnumValue.isObject_encode
  apply HasForm.append _ (.given hvalues .nil)
  exact HasForm.append (.given (isString_string e.name) .nil) e.docs.hasForm_encode

theorem EnumType.isRecord_encode (e : EnumType) :
    IsRecord (["name", "values"] ++ Docs.fields) e.encode :=
  e.isObject_encode.isRecord (by decide) (by decide)

theorem EnumType.plain_encode (e : EnumType) (room : Nat) : Plain (room + 3) e.encode := by
  apply e.isRecord_encode.plain
  rw [List.forall_mem_append, List.forall_mem_append]
  refine ⟨⟨by simpa using .string e.name, e.docs.plain_encode _⟩, ?_⟩
  simpa using plain_encodeList fun v _ => v.plain_encode room

theorem reads_enumType : Reads EnumType.decode EnumType.encode := by
  intro room e hplain
  have hrecord := e.isRecord_encode
  unfold EnumType.encode at hplain hrecord ⊢
  cases hplain with
  | @object room _ _ values =>
    have hname := reads_string.required values "name" e.name (by simp)
    have hdocs := e.docs.ofMembers_eq values
      (by simp [lookup_member, List.lookup_append, Docs.fields])
    have hvalues := reads_enumValue.list.withDefault values "values" e.values []
      (by simp [lookup_member, List.lookup_append])
    rw [EnumType.decode, strictMembers?_object hrecord]
    simp only [Option.bind_eq_bind, Option.bind_some, hname, hdocs, hvalues]
    rfl

/-- The fields of both sides of a method. -/
def Method.allFields (m : Method) : List Field :=
  m.requestFields ++ m.responseFields

/-- How a method is written. -/
def Method.forms : List MemberForm :=
  [⟨"name", IsString, false⟩] ++ Docs.forms ++
    [⟨"requestFields", IsArray (IsObject Field.forms), false⟩,
      ⟨"responseFields", IsArray (IsObject Field.forms), false⟩]

theorem Method.isObject_encode (m : Method) : IsObject Method.forms m.encode := by
  have hrequest := isArray_encodeList m.requestFields Field.isObject_encode
  have hresponse := isArray_encodeList m.responseFields Field.isObject_encode
  apply HasForm.append _ (.given hrequest (.given hresponse .nil))
  exact HasForm.append (.given (isString_string m.name) .nil) m.docs.hasForm_encode

theorem Method.isRecord_encode (m : Method) :
    IsRecord (["name", "requestFields", "responseFields"] ++ Docs.fields) m.encode :=
  m.isObject_encode.isRecord (by decide) (by decide)

theorem Method.plain_encode (m : Method) {room : Nat}
    (h : ∀ f ∈ m.allFields, f.type.nesting ≤ room) : Plain (room + 3) m.encode := by
  rw [Method.allFields, List.forall_mem_append] at h
  apply m.isRecord_encode.plain
  rw [List.forall_mem_append, List.forall_mem_append]
  refine ⟨⟨by simpa using .string m.name, m.docs.plain_encode _⟩, ?_⟩
  simpa using ⟨plain_encodeList fun f hf => f.plain_encode (h.1 f hf),
    plain_encodeList fun f hf => f.plain_encode (h.2 f hf)⟩

theorem reads_method : Reads Method.decode Method.encode := by
  intro room m hplain
  have hrecord := m.isRecord_encode
  unfold Method.encode at hplain hrecord ⊢
  cases hplain with
  | @object room _ _ values =>
    have hname := reads_string.required values "name" m.name (by simp)
    have hdocs := m.docs.ofMembers_eq values
      (by simp [lookup_member, List.lookup_append, Docs.fields])
    have hrequest := reads_field.list.withDefault values "requestFields" m.requestFields []
      (by simp [lookup_member, List.lookup_append])
    have hresponse := reads_field.list.withDefault values "responseFields" m.responseFields []
      (by simp [lookup_member, List.lookup_append])
    rw [Method.decode, strictMembers?_object hrecord]
    simp only [Option.bind_eq_bind, Option.bind_some, hname, hdocs, hrequest, hresponse]
    rfl

/-- Every field that a service declares. -/
def Definition.allFields (s : Definition) : List Field :=
  s.dtos.flatMap (·.fields) ++ s.methods.flatMap (·.allFields)

/-- How a service is written. -/
def Definition.forms : List MemberForm :=
  [⟨"name", IsString, false⟩] ++ Docs.forms ++
    [⟨"dtos", IsArray (IsObject Dto.forms), false⟩,
      ⟨"enums", IsArray (IsObject EnumType.forms), false⟩,
      ⟨"methods", IsArray (IsObject Method.forms), false⟩]

theorem Definition.isObject_encode (s : Definition) : IsObject Definition.forms s.encode := by
  have hdtos := isArray_encodeList s.dtos Dto.isObject_encode
  have henums := isArray_encodeList s.enums EnumType.isObject_encode
  have hmethods := isArray_encodeList s.methods Method.isObject_encode
  apply HasForm.append _ (.given hdtos (.given henums (.given hmethods .nil)))
  exact HasForm.append (.given (isString_string s.name) .nil) s.docs.hasForm_encode

theorem Definition.isRecord_encode (s : Definition) :
    IsRecord (["name", "dtos", "enums", "methods"] ++ Docs.fields) s.encode :=
  s.isObject_encode.isRecord (by decide) (by decide)

theorem Definition.plain_encode (s : Definition) {room : Nat}
    (h : ∀ f ∈ s.allFields, f.type.nesting ≤ room) : Plain (room + 5) s.encode := by
  simp only [Definition.allFields, List.mem_append, List.mem_flatMap] at h
  apply s.isRecord_encode.plain
  rw [List.forall_mem_append, List.forall_mem_append]
  refine ⟨⟨by simpa using .string s.name, s.docs.plain_encode _⟩, ?_⟩
  have hdtos : Plain (room + 4) (encodeList Dto.encode s.dtos) :=
    plain_encodeList fun d hd => d.plain_encode fun f hf => h f (.inl ⟨d, hd, hf⟩)
  have henums : Plain (room + 4) (encodeList EnumType.encode s.enums) :=
    plain_encodeList fun e _ => e.plain_encode room
  have hmethods : Plain (room + 4) (encodeList Method.encode s.methods) :=
    plain_encodeList fun m hm => m.plain_encode fun f hf => h f (.inr ⟨m, hm, hf⟩)
  simpa using ⟨hdtos, henums, hmethods⟩

theorem reads_definition : Reads Definition.decode Definition.encode := by
  intro room s hplain
  have hrecord := s.isRecord_encode
  unfold Definition.encode at hplain hrecord ⊢
  cases hplain with
  | @object room _ _ values =>
    have hname := reads_string.required values "name" s.name (by simp)
    have hdocs := s.docs.ofMembers_eq values
      (by simp [lookup_member, List.lookup_append, Docs.fields])
    have hdtos := reads_dto.list.withDefault values "dtos" s.dtos []
      (by simp [lookup_member, List.lookup_append])
    have henums := reads_enumType.list.withDefault values "enums" s.enums []
      (by simp [lookup_member, List.lookup_append])
    have hmethods := reads_method.list.withDefault values "methods" s.methods []
      (by simp [lookup_member, List.lookup_append])
    rw [Definition.decode, strictMembers?_object hrecord]
    simp only [Option.bind_eq_bind, Option.bind_some, hname, hdocs, hdtos, henums, hmethods]
    rfl

/-! ## HTTP bindings -/

/-- How verbs are written. -/
def VerbForm (j : Json) : Prop :=
  ∃ name ∈ ["GET", "POST", "PUT", "PATCH", "DELETE"], j = .string name

theorem Verb.verbForm_wire (v : Verb) : VerbForm (.string v.wire) := by
  cases v <;> exact ⟨_, by decide, rfl⟩

theorem ofWire?_wire (v : Verb) : Verb.ofWire? v.wire = some v := by
  cases v <;> decide

theorem reads_verb : Reads Verb.decode fun v => .string v.wire :=
  fun _ v _ => ofWire?_wire v

/-- How a reference to a field is written. -/
def referenceForms : List MemberForm :=
  [⟨"field", IsString, false⟩]

theorem isObject_encodeReference (name : String) :
    IsObject referenceForms (encodeReference name) :=
  .given (isString_string name) .nil

theorem plain_encodeReference (name : String) (room : Nat) :
    Plain (room + 1) (encodeReference name) :=
  .object (by simp) (by simpa using .string name)

theorem reads_reference : Reads decodeReference encodeReference := by
  intro room name hplain
  unfold encodeReference at hplain ⊢
  cases hplain with
  | @object room _ distinct values =>
    rw [decodeReference, recordMembers?_object ⟨distinct, by simp⟩]
    exact reads_string.required values "field" name (by simp)

/-- How a field with its name on the wire is written. -/
def WireField.forms : List MemberForm :=
  [⟨"field", IsString, false⟩, ⟨"name", IsString, false⟩]

theorem WireField.isObject_encode (f : WireField) : IsObject WireField.forms f.encode :=
  .given (isString_string f.field) (.given (isString_string f.name) .nil)

theorem WireField.plain_encode (f : WireField) (room : Nat) : Plain (room + 1) f.encode :=
  .object (by simp) (by simpa using ⟨.string f.field, .string f.name⟩)

theorem reads_wireField : Reads WireField.decode WireField.encode := by
  intro room f hplain
  unfold WireField.encode at hplain ⊢
  cases hplain with
  | @object room _ distinct values =>
    have hfield := reads_string.required values "field" f.field (by simp)
    have hname := reads_string.required values "name" f.name (by simp [lookup_member])
    rw [WireField.decode, recordMembers?_object ⟨distinct, by simp⟩]
    simp only [Option.bind_eq_bind, Option.bind_some, hfield, hname]
    rfl

/-- How a status code is written. -/
def StatusForm (j : Json) : Prop :=
  ∃ n < 65536, j = .number (.ofNat n)

/-- How a response is written. -/
def ValidResponse.forms : List MemberForm :=
  [⟨"statusCode", StatusForm, false⟩] ++ [⟨"bodyField", IsObject referenceForms, true⟩] ++
    [⟨"normalFields", IsArray (IsObject referenceForms), true⟩]

theorem ValidResponse.isObject_encode (r : ValidResponse) :
    IsObject ValidResponse.forms r.encode := by
  have hstatus : StatusForm (.number (.ofNat r.status.toNat)) := ⟨_, r.status.toNat_lt, rfl⟩
  have hbody := hasForm_optionalMember "bodyField" r.bodyField isObject_encodeReference
  have hnormal := hasForm_optionalMember "normalFields" r.normalFields
    fun names => isArray_encodeList names isObject_encodeReference
  exact (HasForm.append (.given hstatus .nil) hbody).append hnormal

theorem ValidResponse.isRecord_encode (r : ValidResponse) :
    IsRecord ["statusCode", "bodyField", "normalFields"] r.encode :=
  r.isObject_encode.isRecord (by decide) (by decide)

theorem ValidResponse.plain_encode (r : ValidResponse) (room : Nat) :
    Plain (room + 3) r.encode := by
  apply r.isRecord_encode.plain
  rw [List.forall_mem_append, List.forall_mem_append]
  refine ⟨⟨by simpa using .number r.status.toNat_lt, ?_⟩, ?_⟩
  · exact plain_optionalMember _ fun name _ => plain_encodeReference name _
  · exact plain_optionalMember _ fun names _ =>
      plain_encodeList fun name _ => plain_encodeReference name room

theorem reads_validResponse : Reads ValidResponse.decode ValidResponse.encode := by
  intro room r hplain
  have hrecord := r.isRecord_encode
  unfold ValidResponse.encode at hplain hrecord ⊢
  cases hplain with
  | @object room _ _ values =>
    have hstatus := reads_uint16.required values "statusCode" r.status (by simp)
    have hbody := reads_reference.optional values "bodyField" r.bodyField
      (by simp [lookup_member, List.lookup_append])
    have hnormal := reads_reference.list.optional values "normalFields" r.normalFields
      (by simp [lookup_member, List.lookup_append])
    rw [ValidResponse.decode, recordMembers?_object hrecord]
    simp only [Option.bind_eq_bind, Option.bind_some, hstatus, hbody, hnormal]
    rfl

/-- How the binding of a method is written. -/
def MethodBinding.forms : List MemberForm :=
  [⟨"name", IsString, false⟩, ⟨"verb", VerbForm, false⟩, ⟨"path", IsString, false⟩,
    ⟨"pathFields", IsArray (IsObject referenceForms), false⟩,
    ⟨"queryFields", IsArray (IsObject WireField.forms), false⟩,
    ⟨"requestHeaderFields", IsArray (IsObject WireField.forms), false⟩] ++
    [⟨"requestBodyField", IsObject referenceForms, true⟩] ++
    [⟨"requestNormalFields", IsArray (IsObject referenceForms), false⟩,
    ⟨"responseHeaderFields", IsArray (IsObject WireField.forms), false⟩,
    ⟨"validResponses", IsArray (IsObject ValidResponse.forms), false⟩]

theorem MethodBinding.isObject_encode (b : MethodBinding) :
    IsObject MethodBinding.forms b.encode := by
  have hreferences : ∀ names, IsArray (IsObject referenceForms)
      (encodeList encodeReference names) :=
    fun names => isArray_encodeList names isObject_encodeReference
  have hwireFields : ∀ fields, IsArray (IsObject WireField.forms)
      (encodeList WireField.encode fields) :=
    fun fields => isArray_encodeList fields WireField.isObject_encode
  have hresponses := isArray_encodeList b.validResponses ValidResponse.isObject_encode
  have hbody := hasForm_optionalMember "requestBodyField" b.requestBodyField
    isObject_encodeReference
  refine HasForm.append (HasForm.append ?_ hbody) ?_
  · exact .given (isString_string b.name) (.given b.verb.verbForm_wire
      (.given (isString_string b.path) (.given (hreferences b.pathFields)
        (.given (hwireFields b.queryFields) (.given (hwireFields b.requestHeaderFields) .nil)))))
  · exact .given (hreferences b.requestNormalFields)
      (.given (hwireFields b.responseHeaderFields) (.given hresponses .nil))

theorem MethodBinding.isRecord_encode (b : MethodBinding) :
    IsRecord ["name", "verb", "path", "pathFields", "queryFields", "requestHeaderFields",
      "requestBodyField", "requestNormalFields", "responseHeaderFields", "validResponses"]
      b.encode :=
  b.isObject_encode.isRecord (by decide) (by decide)

theorem MethodBinding.plain_encode (b : MethodBinding) (room : Nat) :
    Plain (room + 5) b.encode := by
  have hreferences : ∀ names, Plain (room + 4) (encodeList encodeReference names) :=
    fun names => plain_encodeList fun name _ => plain_encodeReference name _
  have hwireFields : ∀ fields, Plain (room + 4) (encodeList WireField.encode fields) :=
    fun fields => plain_encodeList fun f _ => f.plain_encode _
  have hresponses : Plain (room + 4) (encodeList ValidResponse.encode b.validResponses) :=
    plain_encodeList fun r _ => r.plain_encode room
  apply b.isRecord_encode.plain
  rw [List.forall_mem_append, List.forall_mem_append]
  refine ⟨⟨?_, plain_optionalMember _ fun name _ => plain_encodeReference name _⟩, ?_⟩
  · simpa using ⟨.string b.name, .string b.verb.wire, .string b.path, hreferences b.pathFields,
      hwireFields b.queryFields, hwireFields b.requestHeaderFields⟩
  · simpa using ⟨hreferences b.requestNormalFields, hwireFields b.responseHeaderFields,
      hresponses⟩

theorem reads_methodBinding : Reads MethodBinding.decode MethodBinding.encode := by
  intro room b hplain
  have hrecord := b.isRecord_encode
  unfold MethodBinding.encode at hplain hrecord ⊢
  cases hplain with
  | @object room _ _ values =>
    have hname := reads_string.required values "name" b.name (by simp)
    have hverb := reads_verb.required values "verb" b.verb (by simp [lookup_member])
    have hpath := reads_string.required values "path" b.path (by simp [lookup_member])
    have hpathFields := reads_reference.list.withDefault values "pathFields" b.pathFields []
      (by simp [lookup_member])
    have hquery := reads_wireField.list.withDefault values "queryFields" b.queryFields []
      (by simp [lookup_member])
    have hheader := reads_wireField.list.withDefault values "requestHeaderFields"
      b.requestHeaderFields [] (by simp [lookup_member])
    have hbody := reads_reference.optional values "requestBodyField" b.requestBodyField
      (by simp [lookup_member, List.lookup_append])
    have hnormal := reads_reference.list.withDefault values "requestNormalFields"
      b.requestNormalFields [] (by simp [lookup_member, List.lookup_append])
    have hresponseHeader := reads_wireField.list.withDefault values "responseHeaderFields"
      b.responseHeaderFields [] (by simp [lookup_member, List.lookup_append])
    have hresponses := reads_validResponse.list.withDefault values "validResponses"
      b.validResponses [] (by simp [lookup_member, List.lookup_append])
    rw [MethodBinding.decode, recordMembers?_object hrecord]
    simp only [Option.bind_eq_bind, Option.bind_some, hname, hverb, hpath, hpathFields, hquery,
      hheader, hbody, hnormal, hresponseHeader, hresponses]
    rfl

/-- How the bindings of a service are written. -/
def Binding.forms : List MemberForm :=
  [⟨"url", IsString, true⟩] ++ [⟨"methods", IsArray (IsObject MethodBinding.forms), false⟩]

theorem Binding.isObject_encode (b : Binding) : IsObject Binding.forms b.encode := by
  have hurl := hasForm_optionalMember "url" b.url isString_string
  have hmethods := isArray_encodeList b.methods MethodBinding.isObject_encode
  exact HasForm.append hurl (.given hmethods .nil)

theorem Binding.isRecord_encode (b : Binding) : IsRecord ["url", "methods"] b.encode :=
  b.isObject_encode.isRecord (by decide) (by decide)

theorem Binding.plain_encode (b : Binding) (room : Nat) : Plain (room + 7) b.encode := by
  apply b.isRecord_encode.plain
  rw [List.forall_mem_append]
  refine ⟨plain_optionalMember _ fun url _ => .string url, ?_⟩
  simpa using plain_encodeList fun m _ => m.plain_encode room

theorem reads_binding : Reads Binding.decode Binding.encode := by
  intro room b hplain
  have hrecord := b.isRecord_encode
  unfold Binding.encode at hplain hrecord ⊢
  cases hplain with
  | @object room _ _ values =>
    have hurl := reads_string.optional values "url" b.url
      (by simp [lookup_member, List.lookup_append])
    have hmethods := reads_methodBinding.list.withDefault values "methods" b.methods []
      (by simp [List.lookup_append])
    rw [Binding.decode, recordMembers?_object hrecord]
    simp only [Option.bind_eq_bind, Option.bind_some, hurl, hmethods]
    rfl

/-- How a document is written. -/
def Document.forms : List MemberForm :=
  [⟨"service", IsObject Definition.forms, false⟩, ⟨"http", IsObject Binding.forms, false⟩]

theorem Document.isObject_encode (d : Document) : IsObject Document.forms d.encode :=
  .given d.service.isObject_encode (.given d.http.isObject_encode .nil)

theorem Document.plain_encode (d : Document) {room : Nat}
    (h : ∀ f ∈ d.service.allFields, f.type.nesting ≤ room + 2) : Plain (room + 8) d.encode :=
  .object (by simp) (by simpa using ⟨d.service.plain_encode h, d.http.plain_encode room⟩)

theorem reads_document : Reads Document.decode Document.encode := by
  intro room d hplain
  unfold Document.encode at hplain ⊢
  cases hplain with
  | @object room _ distinct values =>
    have hservice := reads_definition.required values "service" d.service (by simp)
    have hhttp := reads_binding.withDefault values "http" d.http {} (by simp [lookup_member])
    rw [Document.decode, recordMembers?_object ⟨distinct, by simp⟩]
    simp only [Option.bind_eq_bind, Option.bind_some, hservice, hhttp]
    rfl

end HttpStubs.Service
