import HttpStubs.Proofs.DocumentCoding
import HttpStubs.Proofs.JsonText

/-!
# Documents in texts

A document is read back from its value wherever there is room for the value. A document that was
read from a text always leaves that room: the types of its fields nest no deeper than the values
they were read from.
-/

namespace HttpStubs.Service

open Json (Decoder IsObject Members Plain)

/-! ## The depth of what is read -/

/-- The kind adds one level to the depth of its element type, if it has one. -/
def TypeKind.AddsLevel : TypeKind → Prop
  | .plain type => type.nesting = 1
  | .named type => ∀ name, (type name).nesting = 1
  | .container type => ∀ value, (type value).nesting = value.nesting + 1

theorem TypeKind.addsLevel_of_mem {p : String × TypeKind} (h : p ∈ TypeKind.all) :
    p.2.AddsLevel := by
  simp only [TypeKind.all, List.mem_cons, List.not_mem_nil, or_false] at h
  rcases h with rfl | rfl | rfl | rfl | rfl | rfl | rfl | rfl | rfl | rfl | rfl | rfl | rfl | rfl |
    rfl <;> first | rfl | exact fun _ => rfl

theorem TypeKind.addsLevel_of_decode {nested : Bool} {j : Json} {k : TypeKind}
    (h : TypeKind.decode nested j = some k) : k.AddsLevel := by
  unfold TypeKind.decode at h
  split at h
  next name =>
    obtain ⟨before, after, heq, -⟩ := List.lookup_eq_some_iff.1 h
    have hmem : (name, k) ∈ TypeKind.all := by simp [heq]
    exact TypeKind.addsLevel_of_mem hmem
  next n =>
    split at h
    next =>
      obtain ⟨i, -, h⟩ := Option.bind_eq_some_iff.1 h
      obtain ⟨p, hp, rfl⟩ := Option.map_eq_some_iff.1 h
      exact TypeKind.addsLevel_of_mem (List.mem_of_getElem? hp)
    next => cases h
  next => cases h

/-- The type is of the kind; its element type was read with one level less. -/
def TypeKind.Makes (room : Nat) (t : ValueType) : TypeKind → Prop
  | .plain type => t = type
  | .named type => ∃ name, t = type name
  | .container type => ∃ j value, ValueType.decodeKind true room j = some value ∧ t = type value

theorem makes_of_decodeKind {nested : Bool} {room : Nat} {j : Json} {t : ValueType}
    (h : ValueType.decodeKind nested (room + 1) j = some t) :
    ∃ k : TypeKind, k.AddsLevel ∧ k.Makes room t := by
  unfold ValueType.decodeKind at h
  -- an array of the kind, an array of the kind and what it takes, or an object
  split at h
  next => contradiction
  next =>
    obtain ⟨k, hk, h⟩ := Option.bind_eq_some_iff.1 h
    refine ⟨k, TypeKind.addsLevel_of_decode hk, ?_⟩
    cases k <;> simp_all [TypeKind.Makes]
  next hroom =>
    cases hroom
    obtain ⟨k, hk, h⟩ := Option.bind_eq_some_iff.1 h
    refine ⟨k, TypeKind.addsLevel_of_decode hk, ?_⟩
    cases k with
    | plain type => cases h
    | named type =>
      obtain ⟨name, -, rfl⟩ := Option.map_eq_some_iff.1 h
      exact ⟨name, rfl⟩
    | container type =>
      obtain ⟨value, hvalue, rfl⟩ := Option.map_eq_some_iff.1 h
      exact ⟨_, value, hvalue, rfl⟩
  next hroom =>
    cases hroom
    obtain ⟨kinds, -, h⟩ := Option.bind_eq_some_iff.1 h
    obtain ⟨k, hk, h⟩ := Option.bind_eq_some_iff.1 h
    obtain ⟨kind, -, hk⟩ := Option.bind_eq_some_iff.1 hk
    refine ⟨k, TypeKind.addsLevel_of_decode hk, ?_⟩
    cases k with
    | plain type =>
      cases h
      rfl
    | named type =>
      obtain ⟨names, -, h⟩ := Option.bind_eq_some_iff.1 h
      obtain ⟨read, -, h⟩ := Option.bind_eq_some_iff.1 h
      obtain ⟨name, -, rfl⟩ := Option.map_eq_some_iff.1 h
      exact ⟨name, rfl⟩
    | container type =>
      obtain ⟨values, -, h⟩ := Option.bind_eq_some_iff.1 h
      obtain ⟨read, hread, h⟩ := Option.bind_eq_some_iff.1 h
      obtain ⟨j, -, rfl⟩ := Option.map_eq_some_iff.1 hread
      obtain ⟨value, hvalue, rfl⟩ := Option.map_eq_some_iff.1 h
      exact ⟨j, value, hvalue, rfl⟩
  next => cases h

theorem nesting_le_of_decodeKind {nested : Bool} {room : Nat} {j : Json} {t : ValueType}
    (h : ValueType.decodeKind nested room j = some t) : t.nesting ≤ room := by
  induction room generalizing nested j t with
  | zero => simp [ValueType.decodeKind] at h
  | succ room ih =>
    obtain ⟨k, hlevel, hmakes⟩ := makes_of_decodeKind h
    cases k with
    | plain type =>
      subst hmakes
      exact hlevel ▸ Nat.le_add_left 1 room
    | named type =>
      obtain ⟨name, rfl⟩ := hmakes
      exact hlevel name ▸ Nat.le_add_left 1 room
    | container type =>
      obtain ⟨j, value, hvalue, rfl⟩ := hmakes
      rw [hlevel value]
      exact Nat.succ_le_succ (ih hvalue)

section

variable {α : Type} {levels room : Nat} {fields : α → List Field} {decoder : Decoder α}

/-- What the decoder reads has fields whose types leave so many levels of the room. -/
def Leaves (levels : Nat) (fields : α → List Field) (decoder : Decoder α) : Prop :=
  ∀ room j x, decoder room j = some x → ∀ f ∈ fields x, f.type.nesting + levels ≤ room

theorem Leaves.list (h : Leaves levels fields decoder) :
    Leaves (levels + 1) (·.flatMap fields) (Decoder.list decoder) := by
  intro room j xs hread f hf
  unfold Decoder.list at hread
  split at hread
  next room items =>
    obtain ⟨x, hx, hf⟩ := List.mem_flatMap.1 hf
    obtain ⟨item, -, hitem⟩ := exists_of_mapM_eq_some hread hx
    exact Nat.succ_le_succ (h room item x hitem f hf)
  next => cases hread

/-- A list of values that may be left out. -/
theorem Leaves.withDefault (h : Leaves levels fields decoder) {members : Members} {name : String}
    {xs : List α} (hread : members.withDefault room name [] (Decoder.list decoder) = some xs) :
    ∀ f ∈ xs.flatMap fields, f.type.nesting + (levels + 1) ≤ room := by
  unfold Members.withDefault at hread
  split at hread
  next j _ => exact h.list room j xs hread
  next =>
    cases hread
    simp

end

theorem leaves_field : Leaves 1 (fun f => [f]) Field.decode := by
  intro room j f hread
  cases room with
  | zero => cases hread
  | succ room =>
    obtain ⟨members, -, hread⟩ := Option.bind_eq_some_iff.1 hread
    obtain ⟨name, -, hread⟩ := Option.bind_eq_some_iff.1 hread
    obtain ⟨type, htype, hread⟩ := Option.bind_eq_some_iff.1 hread
    obtain ⟨required, -, hread⟩ := Option.bind_eq_some_iff.1 hread
    obtain ⟨docs, -, hread⟩ := Option.bind_eq_some_iff.1 hread
    cases hread
    obtain ⟨j, -, htype⟩ := Option.bind_eq_some_iff.1 htype
    have hnesting : type.nesting ≤ room := by
      unfold ValueType.decode at htype
      split at htype
      next => exact nesting_le_of_decodeKind htype
      next => cases htype
    simpa using hnesting

theorem leaves_dto : Leaves 3 Dto.fields Dto.decode := by
  intro room j d hread
  cases room with
  | zero => cases hread
  | succ room =>
    obtain ⟨members, -, hread⟩ := Option.bind_eq_some_iff.1 hread
    obtain ⟨name, -, hread⟩ := Option.bind_eq_some_iff.1 hread
    obtain ⟨docs, -, hread⟩ := Option.bind_eq_some_iff.1 hread
    obtain ⟨fields, hfields, hread⟩ := Option.bind_eq_some_iff.1 hread
    cases hread
    have hleaves := leaves_field.withDefault hfields
    intro f hf
    have hle := hleaves f (by simpa using hf)
    omega

theorem leaves_method : Leaves 3 Method.allFields Method.decode := by
  intro room j m hread
  cases room with
  | zero => cases hread
  | succ room =>
    obtain ⟨members, -, hread⟩ := Option.bind_eq_some_iff.1 hread
    obtain ⟨name, -, hread⟩ := Option.bind_eq_some_iff.1 hread
    obtain ⟨docs, -, hread⟩ := Option.bind_eq_some_iff.1 hread
    obtain ⟨request, hrequest, hread⟩ := Option.bind_eq_some_iff.1 hread
    obtain ⟨response, hresponse, hread⟩ := Option.bind_eq_some_iff.1 hread
    cases hread
    rw [Method.allFields, List.forall_mem_append]
    constructor
    · simpa using leaves_field.withDefault hrequest
    · simpa using leaves_field.withDefault hresponse

theorem leaves_definition : Leaves 5 Definition.allFields Definition.decode := by
  intro room j s hread
  cases room with
  | zero => cases hread
  | succ room =>
    obtain ⟨members, -, hread⟩ := Option.bind_eq_some_iff.1 hread
    obtain ⟨name, -, hread⟩ := Option.bind_eq_some_iff.1 hread
    obtain ⟨docs, -, hread⟩ := Option.bind_eq_some_iff.1 hread
    obtain ⟨dtos, hdtos, hread⟩ := Option.bind_eq_some_iff.1 hread
    obtain ⟨enums, -, hread⟩ := Option.bind_eq_some_iff.1 hread
    obtain ⟨methods, hmethods, hread⟩ := Option.bind_eq_some_iff.1 hread
    cases hread
    rw [Definition.allFields, List.forall_mem_append]
    constructor
    · intro f hf
      exact Nat.succ_le_succ (leaves_dto.withDefault hdtos f hf)
    · intro f hf
      exact Nat.succ_le_succ (leaves_method.withDefault hmethods f hf)

theorem leaves_document : Leaves 6 (·.service.allFields) Document.decode := by
  intro room j d hread
  cases room with
  | zero => cases hread
  | succ room =>
    obtain ⟨members, -, hread⟩ := Option.bind_eq_some_iff.1 hread
    obtain ⟨service, hservice, hread⟩ := Option.bind_eq_some_iff.1 hread
    obtain ⟨http, -, hread⟩ := Option.bind_eq_some_iff.1 hread
    cases hread
    obtain ⟨value, -, hservice⟩ := Option.bind_eq_some_iff.1 hservice
    intro f hf
    exact Nat.succ_le_succ (leaves_definition room value service hservice f hf)

/-! ## Reading back -/

/-- How many levels the value of a document may nest: the types of its fields stand six levels deep,
and the bindings have eight levels of their own. -/
def Document.nesting (d : Document) : Nat :=
  d.service.allFields.foldr (fun f levels => max (f.type.nesting + 6) levels) 8

theorem nesting_le_iff {d : Document} {room : Nat} :
    d.nesting ≤ room ↔ 8 ≤ room ∧ ∀ f ∈ d.service.allFields, f.type.nesting + 6 ≤ room := by
  unfold Document.nesting
  induction d.service.allFields with
  | nil => simp
  | cons f fields ih =>
    rw [List.foldr_cons, Nat.max_le, ih, List.forall_mem_cons]
    exact and_left_comm

theorem Document.plain_of_nesting {d : Document} {room : Nat} (h : d.nesting ≤ room) :
    Plain room d.encode := by
  obtain ⟨hroom, hfields⟩ := nesting_le_iff.1 h
  obtain ⟨less, rfl⟩ : ∃ less, room = less + 8 := Nat.exists_eq_add_of_le' hroom
  exact d.plain_encode fun f hf => Nat.le_of_add_le_add_right (hfields f hf)

theorem nesting_le_of_decode {room : Nat} {j : Json} {d : Document} (hroom : 8 ≤ room)
    (h : Document.decode room j = some d) : d.nesting ≤ room :=
  nesting_le_iff.2 ⟨hroom, leaves_document room j d h⟩

theorem hasText_of_plain {room : Nat} {j : Json} (h : Plain room j) : j.HasText := by
  induction h with
  | bool b => exact .bool b
  | string s => exact .string s
  | number small =>
    exact .number (by simp [Json.Number.ofNat])
      (Json.Number.overflows_ofNat (Nat.lt_trans small (by decide)))
  | array _ ih => exact .array ih
  | object _ _ ih => exact .object ih

/-- Every document has a value of the written form, from which it is read back where there is room
for it. A document that was read from a text is read back from its value within the limit for texts,
and from the text of that value. -/
theorem document_round_trip :
    (∀ d : Document, IsObject Document.forms d.encode ∧
      ∀ room, d.nesting ≤ room → Document.decode room d.encode = some d) ∧
    ∀ (text : String) (d : Document), Document.ofText? text = some d →
      Document.decode maxNesting d.encode = some d ∧
        Document.ofText? d.encode.text = some d := by
  have hvalue : ∀ (d : Document) (room : Nat), d.nesting ≤ room →
      Document.decode room d.encode = some d :=
    fun d room h => reads_document room d (Document.plain_of_nesting h)
  refine ⟨fun d => ⟨d.isObject_encode, hvalue d⟩, ?_⟩
  intro text d hread
  obtain ⟨j, -, hdecode⟩ := Option.bind_eq_some_iff.1 hread
  have hnesting : d.nesting ≤ maxNesting := nesting_le_of_decode (by decide) hdecode
  have hagain := hvalue d maxNesting hnesting
  have htext := Json.ofText?_text (hasText_of_plain (Document.plain_of_nesting hnesting))
  refine ⟨hagain, ?_⟩
  rw [Document.ofText?, ofText?, htext]
  exact hagain

/-- A document in forms that are read but never written: records and types as arrays, a kind by its
index, a verb as an object, and `null` for an absent member. -/
def shelfSource : Json :=
  .object [("http", .array [.null, .array [.object [("name", .string "Tag"),
      ("verb", .object [("PATCH", .null)]), ("path", .string "/books/\x7bid\x7d"),
      ("pathFields", .array [.array [.string "id"]]),
      ("validResponses", .array [.array [.number (.ofNat 204), .null]])]]]),
    ("service", .object [("note", .null), ("name", .string "Shelf"), ("methods", .array [.object
      [("name", .string "Tag"), ("summary", .null), ("requestFields", .array [.object
        [("name", .string "id"), ("type", .array [.string "nullable",
          .array [.number (.ofNat 9), .string "Book"]])]])]])])]

/-- What the document says. -/
def shelf : Document where
  service.name := "Shelf"
  service.methods :=
    [{ name := "Tag", requestFields := [{ name := "id", type := .nullable (.dto "Book") }] }]
  http.methods := [{
    name := "Tag", verb := .patch, path := "/books/\x7bid\x7d", pathFields := ["id"],
    validResponses := [{ status := 204 }] }]

theorem document_round_trip_shelf :
    (shelf.nesting ≤ 8 ∧ Document.ofText? shelfSource.text = some shelf) ∧
      Document.decode 8 shelf.encode = some shelf ∧
      Document.ofText? shelf.encode.text = some shelf := by
  have hnesting : shelf.nesting ≤ 8 := by decide
  have hread : Document.ofText? shelfSource.text = some shelf := by
    rw [Document.ofText?, ofText?, Json.ofText?, Json.text, String.toList_ofList]
    decide +kernel
  have hvalue := (document_round_trip.1 shelf).2 8 hnesting
  have htext := document_round_trip.2 shelfSource.text shelf hread
  exact ⟨⟨hnesting, hread⟩, hvalue, htext.2⟩

end HttpStubs.Service
