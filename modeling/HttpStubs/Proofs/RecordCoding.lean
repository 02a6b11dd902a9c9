import HttpStubs.Proofs.Traversal
import HttpStubs.Service.Decoding
import HttpStubs.Service.Encoding

/-!
# The coding of records

Rules by which a decoder reads what an encoder has written. A `MemberForm` says what a member of an
object looks like, and `IsObject` which objects have members of given forms. `Plain` holds of the
values that documents are written as; `Reads decoder encode` says that the decoder gives back each
`x` whose value `encode x` is plain. It passes from items to lists and from fields to records: the
value of a field is found under its name, as no name is given twice.
-/

namespace HttpStubs.Json

/-! ## Plain values -/

/-- The values that nest at most so many levels deep, have no `null` and no numbers but small
natural ones, and give no member twice. -/
inductive Plain : Nat → Json → Prop
  | bool {room : Nat} (b : Bool) : Plain room (.bool b)
  | string {room : Nat} (s : String) : Plain room (.string s)
  | number {room n : Nat} (small : n < 65536) : Plain room (.number (.ofNat n))
  | array {room : Nat} {items : List Json} (each : ∀ item ∈ items, Plain room item) :
      Plain (room + 1) (.array items)
  | object {room : Nat} {members : List (String × Json)} (distinct : (members.map (·.1)).Nodup)
      (values : ∀ m ∈ members, Plain room m.2) : Plain (room + 1) (.object members)

theorem itemsFit_iff {room : Nat} {items : List Json} :
    itemsFit room items = true ↔ ∀ item ∈ items, item.fits room = true := by
  induction items with
  | nil => simp [itemsFit]
  | cons item items ih => simp [itemsFit, ih]

theorem membersFit_iff {room : Nat} {members : List (String × Json)} :
    membersFit room members = true ↔ ∀ m ∈ members, m.2.fits room = true := by
  induction members with
  | nil => simp [membersFit]
  | cons m members ih => simp [membersFit, ih]

theorem Plain.fits {room : Nat} {j : Json} (h : Plain room j) : j.fits room = true := by
  induction h with
  | bool | string | number => simp [Json.fits]
  | array _ ih => simpa [Json.fits, itemsFit_iff] using ih
  | object _ _ ih => simpa [Json.fits, membersFit_iff] using ih

/-! ## Forms -/

/-- What a member of an object looks like. -/
structure MemberForm where
  name : String
  value : Json → Prop
  /-- Whether the member may be left out. -/
  optional : Bool := false

/-- Members in the order of their forms, of which only optional ones are left out. -/
inductive HasForm : List MemberForm → List (String × Json) → Prop
  | nil : HasForm [] []
  | given {form : MemberForm} {forms : List MemberForm} {members : List (String × Json)} {j : Json}
      (value : form.value j) (rest : HasForm forms members) :
      HasForm (form :: forms) ((form.name, j) :: members)
  | leftOut {form : MemberForm} {forms : List MemberForm} {members : List (String × Json)}
      (optional : form.optional = true) (rest : HasForm forms members) :
      HasForm (form :: forms) members

/-- The objects with such members. -/
def IsObject (forms : List MemberForm) : Json → Prop
  | .object members => HasForm forms members
  | _ => False

/-- The arrays of such items. -/
def IsArray (item : Json → Prop) : Json → Prop
  | .array items => ∀ j ∈ items, item j
  | _ => False

/-- The strings. -/
def IsString (j : Json) : Prop :=
  ∃ s, j = .string s

/-- The booleans. -/
def IsBool (j : Json) : Prop :=
  ∃ b, j = .bool b

theorem HasForm.append {forms forms' : List MemberForm} {members members' : List (String × Json)}
    (h : HasForm forms members) (h' : HasForm forms' members') :
    HasForm (forms ++ forms') (members ++ members') := by
  induction h with
  | nil => exact h'
  | given value _ ih => exact .given value ih
  | leftOut optional _ ih => exact .leftOut optional ih

theorem HasForm.sublist {forms : List MemberForm} {members : List (String × Json)}
    (h : HasForm forms members) : (members.map (·.1)).Sublist (forms.map (·.name)) := by
  induction h with
  | nil => exact .slnil
  | given _ _ ih => exact .cons_cons _ ih
  | leftOut _ _ ih => exact .cons _ ih

/-! ## Decoders -/

section

variable {α : Type} {decoder : Decoder α} {encode : α → Json}

/-- The decoder reads each value that is written plainly. -/
def Reads (decoder : Decoder α) (encode : α → Json) : Prop :=
  ∀ room x, Plain room (encode x) → decoder room (encode x) = some x

theorem reads_string : Reads Decoder.string .string :=
  fun _ _ _ => rfl

theorem reads_bool : Reads Decoder.bool .bool :=
  fun _ _ _ => rfl

theorem reads_uint16 : Reads Decoder.uint16 fun n => .number (.ofNat n.toNat) := by
  intro room n _
  have hsmall : n.toNat < 65536 := n.toNat_lt
  simp [Decoder.uint16, Number.toNat?, Number.ofNat, hsmall]

theorem Reads.list (h : Reads decoder encode) :
    Reads (Decoder.list decoder) (Service.encodeList encode) := by
  intro room xs hplain
  unfold Service.encodeList at hplain ⊢
  cases hplain with
  | array each =>
    exact mapM_map_eq_some fun x hx => h _ x (each _ (List.mem_map_of_mem hx))

theorem Reads.nullable (h : Reads decoder encode) {room : Nat} {x : α}
    (hplain : Plain room (encode x)) : decoder.nullable room (encode x) = some (some x) := by
  unfold Decoder.nullable
  split
  next hnull =>
    rw [hnull] at hplain
    cases hplain
  next => rw [h _ x hplain, Option.map_some]

/-! ## Members -/

variable {members : Members} {room : Nat}

theorem plain_of_lookup (values : ∀ m ∈ members, Plain room m.2) {name : String} {j : Json}
    (h : members.lookup name = some j) : Plain room j := by
  obtain ⟨before, after, rfl, -⟩ := List.lookup_eq_some_iff.1 h
  exact values (name, j) (by simp)

theorem Reads.required (h : Reads decoder encode) (values : ∀ m ∈ members, Plain room m.2)
    (name : String) (x : α) (hlookup : members.lookup name = some (encode x)) :
    members.required room name decoder = some x := by
  rw [Members.required, hlookup, Option.bind_some]
  exact h room x (plain_of_lookup values hlookup)

theorem Reads.withDefault (h : Reads decoder encode) (values : ∀ m ∈ members, Plain room m.2)
    (name : String) (x other : α) (hlookup : members.lookup name = some (encode x)) :
    members.withDefault room name other decoder = some x := by
  rw [Members.withDefault, hlookup]
  exact h room x (plain_of_lookup values hlookup)

theorem Reads.optional (h : Reads decoder encode) (values : ∀ m ∈ members, Plain room m.2)
    (name : String) (value : Option α) (hlookup : members.lookup name = value.map encode) :
    members.optional room name decoder = some value := by
  rw [Members.optional, Members.withDefault, hlookup]
  cases value with
  | none => rfl
  | some x => exact h.nullable (plain_of_lookup values hlookup)

theorem lookup_member (key name : String) (j : Json) (members : Members) :
    List.lookup key ((name, j) :: members) = if key = name then some j else members.lookup key := by
  by_cases h : key = name
  · simp [h]
  · have hkey : (key == name) = false := by simpa using h
    rw [List.lookup_cons, hkey, if_neg h]

/-- An object whose members are fields, each at most once. -/
def IsRecord (fields : List String) : Json → Prop
  | .object members => (members.map (·.1)).Nodup ∧ ∀ m ∈ members, m.1 ∈ fields
  | _ => False

variable {fields : List String}

theorem IsObject.isRecord {forms : List MemberForm} {j : Json} (h : IsObject forms j)
    (distinct : (forms.map (·.name)).Nodup) (known : ∀ form ∈ forms, form.name ∈ fields) :
    IsRecord fields j := by
  cases j with
  | object members =>
    have hnames := HasForm.sublist h
    refine ⟨distinct.sublist hnames, fun m hm => ?_⟩
    have hname : m.1 ∈ forms.map (·.name) := hnames.subset (List.mem_map_of_mem hm)
    obtain ⟨form, hform, hm⟩ := List.mem_map.1 hname
    exact hm ▸ known form hform
  | _ => cases h

theorem IsRecord.plain (h : IsRecord fields (.object members))
    (values : ∀ m ∈ members, Plain room m.2) : Plain (room + 1) (.object members) :=
  .object h.1 values

theorem knownMembers?_eq (h : IsRecord fields (.object members)) :
    knownMembers? fields members = some members := by
  have hfilter : (members.filter fun m => fields.contains m.1) = members := by
    rw [List.filter_eq_self]
    simpa using h.2
  rw [knownMembers?, hfilter, if_pos h.1]

theorem recordMembers?_object (h : IsRecord fields (.object members)) :
    recordMembers? fields (.object members) = some members :=
  knownMembers?_eq h

theorem strictMembers?_object (h : IsRecord fields (.object members)) (room : Nat) :
    strictMembers? fields room (.object members) = some members := by
  have hall : (members.all fun m => fields.contains m.1 || m.2.fits room) = true := by
    rw [List.all_eq_true]
    intro m hm
    simp [h.2 m hm]
  rw [strictMembers?, if_pos hall, knownMembers?_eq h]

end

end HttpStubs.Json
