import HttpStubs.Proofs.Resolution

/-!
# What a request carries

The names of the request fields that an endpoint carries, place by place (`carried`). The check
counts the references of all places, but a body field leaves no room for normal fields: those
beside it are `displaced`. Carried and displaced names together are the names of the request fields
in some order, so a request loses nothing exactly if the binding does not have both a body field
and normal fields.
-/

namespace HttpStubs.Api

open Service (Document Field Method MethodBinding)

/-- The names of the fields that a body holds. -/
def RequestBody.names (m : Method) : RequestBody → List String
  | .none => []
  | .field f => [f.name]
  | .wholeRequest => m.requestFields.map (·.name)
  | .normal fields => fields.map (·.name)

/-- The names of the request fields that an endpoint carries: path, query, headers, body. -/
def Endpoint.carried (e : Endpoint) : List String :=
  e.pathFields.map Slot.name ++ e.queryFields.map Slot.name ++
    e.requestHeaderFields.map Slot.name ++ e.requestBody.names e.method

/-- The normal fields that stand beside a body field. -/
def displaced (b : MethodBinding) : List String :=
  if b.requestBodyField.isSome then b.requestNormalFields else []

theorem displaced_eq_nil_iff {b : MethodBinding} :
    displaced b = [] ↔ b.requestBodyField = none ∨ b.requestNormalFields = [] := by
  unfold displaced
  cases b.requestBodyField <;> simp

/-- Normal fields as many as the request has fields are all that the binding refers to. -/
theorem normal_perm_of_length {m : Method} {b : MethodBinding}
    (perm : b.requestReferences.Perm (m.requestFields.map (·.name)))
    (hlen : b.requestNormalFields.length = m.requestFields.length) :
    b.requestNormalFields.Perm (m.requestFields.map (·.name)) := by
  unfold MethodBinding.requestReferences at perm
  have htotal := perm.length_eq
  rw [List.length_append, List.length_map, hlen] at htotal
  have hrest := List.eq_nil_of_length_eq_zero (Nat.add_eq_right.1 htotal)
  rwa [hrest, List.nil_append] at perm

namespace Endpoint

variable {m : Method} {b : MethodBinding} {e : Endpoint}

/-- What decides the body of a request: the body field first, then whether there are normal fields,
then whether they are as many as the request has fields. -/
theorem resolveRequestBody_cases {body : RequestBody} (h : resolveRequestBody m b = .ok body) :
    (∃ f, b.requestBodyField = some f.name ∧ body = .field f) ∨
      b.requestBodyField = none ∧
        (b.requestNormalFields = [] ∧ body = .none ∨
          b.requestNormalFields ≠ [] ∧
            (b.requestNormalFields.length = m.requestFields.length ∧ body = .wholeRequest ∨
              b.requestNormalFields.length ≠ m.requestFields.length ∧
                ∃ fields, fields.map (·.name) = b.requestNormalFields ∧ body = .normal fields)) := by
  unfold resolveRequestBody at h
  cases hb : b.requestBodyField with
  | some name =>
    rw [hb] at h
    obtain ⟨f, hf, h⟩ := bind_eq_ok_iff.1 h
    have hname : f.name = name := Method.name_of_field? (resolveField_eq_ok_iff.1 hf)
    exact .inl ⟨f, by rw [hname], (pure_eq_ok_iff.1 h).symm⟩
  | none =>
    rw [hb] at h
    refine .inr ⟨rfl, ?_⟩
    split_ifs at h with hempty hlen
    · exact .inl ⟨List.isEmpty_iff.1 hempty, (pure_eq_ok_iff.1 h).symm⟩
    · exact .inr ⟨mt List.isEmpty_iff.2 hempty, .inl ⟨hlen, (pure_eq_ok_iff.1 h).symm⟩⟩
    · obtain ⟨fields, hfields, h⟩ := bind_eq_ok_iff.1 h
      exact .inr ⟨mt List.isEmpty_iff.2 hempty, .inr ⟨hlen, fields,
        map_name_of_resolveField (mapM_eq_ok_iff.1 hfields), (pure_eq_ok_iff.1 h).symm⟩⟩

/-- The body holds the body field and the normal fields, up to the displaced ones. -/
theorem names_append_displaced_perm
    (perm : b.requestReferences.Perm (m.requestFields.map (·.name))) {body : RequestBody}
    (h : resolveRequestBody m b = .ok body) :
    (body.names m ++ displaced b).Perm (b.requestBodyField.toList ++ b.requestNormalFields) := by
  obtain ⟨f, hb, rfl⟩ | ⟨hb, h⟩ := resolveRequestBody_cases h
  · simp [RequestBody.names, displaced, hb]
  · simp only [displaced, hb, Option.isSome_none, Bool.false_eq_true, if_false, List.append_nil,
      Option.toList_none, List.nil_append]
    obtain ⟨hnil, rfl⟩ | ⟨-, ⟨hlen, rfl⟩ | ⟨-, fields, hfields, rfl⟩⟩ := h
    · rw [hnil]
      exact List.Perm.refl []
    · exact (normal_perm_of_length perm hlen).symm
    · rw [RequestBody.names, hfields]

theorem Resolved.carried_append_displaced_perm (h : Resolved m b e) :
    (e.carried ++ displaced b).Perm (m.requestFields.map (·.name)) := by
  obtain ⟨-, perm, -⟩ := MethodBinding.checkPartition_eq_ok_iff.1 h.checked
  have hbody := names_append_displaced_perm perm h.requestBody
  refine List.Perm.trans ?_ perm
  unfold carried MethodBinding.requestReferences
  rw [h.method, h.name_pathFields, map_name_of_resolveSlot h.queryFields,
    map_name_of_resolveSlot h.requestHeaderFields, List.append_assoc, List.append_assoc _ _
    b.requestNormalFields]
  exact hbody.append_left _

end Endpoint

/-- An accepted document has request fields of distinct names on each bound method. The carried and
the displaced names of an endpoint are these names in some order. So each field is carried exactly
once if and only if the binding has no body field or no normal fields. -/
theorem carried_perm_iff {d : Document} {api : HttpStubs.Api} (h : ofDocument d = .ok api)
    {e : Endpoint} (he : e ∈ api.endpoints) :
    ∃ b, d.http.method? e.name = some b ∧
      (e.method.requestFields.map (·.name)).Nodup ∧
      (e.carried ++ displaced b).Perm (e.method.requestFields.map (·.name)) ∧
      (e.carried.Perm (e.method.requestFields.map (·.name)) ↔
        b.requestBodyField = none ∨ b.requestNormalFields = []) := by
  obtain ⟨b, hb, hres⟩ := resolved_of_mem_endpoints h he
  have perm := hres.carried_append_displaced_perm
  refine ⟨b, hb, (MethodBinding.checkPartition_eq_ok_iff.1 hres.checked).1, perm, ?_⟩
  rw [← displaced_eq_nil_iff]
  constructor
  · intro hcarried
    -- Both lists have the length of the field list, so nothing is left for the displaced names.
    have hlen := (perm.trans hcarried.symm).length_eq
    rw [List.length_append] at hlen
    exact List.eq_nil_of_length_eq_zero (Nat.add_eq_left.1 hlen)
  · intro hnil
    rwa [hnil, List.append_nil] at perm

/-! ## A body field beside a normal field -/

/-- A method with two request fields. -/
def createMethod : Method where
  name := "createWidget"
  requestFields := [{ name := "widget", type := .dto "Widget" }, { name := "note", type := .string }]

/-- The document of that method alone. -/
def createDocument (body : Option String) (normal : List String) : Document where
  service := { name := "Widgets", methods := [createMethod] }
  http := {
    methods := [{
      name := "createWidget"
      verb := .post
      path := "/widgets"
      requestBodyField := body
      requestNormalFields := normal }] }

def createEndpoint (body : RequestBody) : Endpoint where
  method := createMethod
  verb := .post
  path := [.text "/widgets"]
  pathFields := []
  queryFields := []
  requestHeaderFields := []
  requestBody := body
  responseHeaderFields := []
  responses := []

def createApi (body : RequestBody) : HttpStubs.Api where
  service := { name := "Widgets", methods := [createMethod] }
  baseUri := none
  endpoints := [createEndpoint body]

/-- Normal fields in another order than the request fields are carried as the whole request. -/
theorem carried_perm_wholeRequest :
    ofDocument (createDocument none ["note", "widget"]) = .ok (createApi .wholeRequest) ∧
      createEndpoint .wholeRequest ∈ (createApi .wholeRequest).endpoints ∧
      (createEndpoint .wholeRequest).carried.Perm (createMethod.requestFields.map (·.name)) := by
  have h : ofDocument (createDocument none ["note", "widget"]) = .ok (createApi .wholeRequest) := rfl
  have he : createEndpoint .wholeRequest ∈ (createApi .wholeRequest).endpoints :=
    List.mem_cons_self
  obtain ⟨b, hb, -, -, hiff⟩ := carried_perm_iff h he
  cases hb
  exact ⟨h, he, hiff.2 (.inl rfl)⟩

/-- The document is accepted, yet the field beside the body field is not carried. -/
theorem note_beside_body_not_carried :
    (createDocument (some "widget") ["note"]).check = .ok () ∧
      ofDocument (createDocument (some "widget") ["note"]) =
        .ok (createApi (.field { name := "widget", type := .dto "Widget" })) ∧
      ¬(createEndpoint (.field { name := "widget", type := .dto "Widget" })).carried.Perm
        (createMethod.requestFields.map (·.name)) :=
  ⟨rfl, rfl, by decide⟩

end HttpStubs.Api
