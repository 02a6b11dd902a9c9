import HttpStubs.Api.Endpoint
import HttpStubs.Proofs.Partition

/-!
# Resolved bindings

What the endpoint of a method and its binding is made of (`Resolved`), and which methods of an
accepted document have an endpoint. Later proofs about endpoints start from these facts and open
neither `ofBinding` nor `ofDocument`.
-/

namespace HttpStubs.Api

open Service (Direction Document Field Method MethodBinding ValidResponse WireField)

namespace Endpoint

variable {m : Method} {b : MethodBinding} {e : Endpoint}

/-! ## References -/

theorem resolveField_eq_ok_iff {side : Direction} {name : String} {f : Field} :
    resolveField m side name = .ok f ↔ m.field? side name = some f := by
  unfold resolveField
  split
  next g hg => rw [hg, Except.ok.injEq, Option.some.injEq]
  next hg => simp [hg]

theorem resolveSlot_eq_ok_iff {place : Place} {ref : WireField} {s : Slot} :
    resolveSlot m place ref = .ok s ↔
      m.field? place.side ref.field = some s.field ∧ s.wire = ref.name ∧
        Scalar.ofValueType? s.field.type = some s.kind := by
  unfold resolveSlot
  simp only [bind_eq_ok_iff, resolveField_eq_ok_iff]
  constructor
  · rintro ⟨f, hf, h⟩
    split at h
    next kind hkind =>
      obtain rfl := pure_eq_ok_iff.1 h
      exact ⟨hf, rfl, hkind⟩
    next => cases h
  · rintro ⟨hf, hwire, hkind⟩
    refine ⟨s.field, hf, ?_⟩
    rw [hkind, ← hwire]
    rfl

theorem name_of_resolveSlot {place : Place} {ref : WireField} {s : Slot}
    (h : resolveSlot m place ref = .ok s) : s.name = ref.field :=
  Method.name_of_field? (resolveSlot_eq_ok_iff.1 h).1

theorem map_name_of_resolveField {side : Direction} {names : List String} {fields : List Field}
    (h : List.Forall₂ (fun name f => resolveField m side name = .ok f) names fields) :
    fields.map (·.name) = names := by
  induction h with
  | nil => rfl
  | cons hf _ ih => rw [List.map_cons, ih, Method.name_of_field? (resolveField_eq_ok_iff.1 hf)]

theorem map_name_of_resolveSlot {place : Place} {refs : List WireField} {slots : List Slot}
    (h : List.Forall₂ (fun ref s => resolveSlot m place ref = .ok s) refs slots) :
    slots.map Slot.name = refs.map (·.field) := by
  induction h with
  | nil => rfl
  | cons hs _ ih => rw [List.map_cons, List.map_cons, ih, name_of_resolveSlot hs]

/-! ## Endpoints -/

/-- What `e` has in common with the method and the binding that it is made of. -/
structure Resolved (m : Method) (b : MethodBinding) (e : Endpoint) : Prop where
  checked : b.checkPartition m = .ok ()
  method : e.method = m
  pathFields : List.Forall₂ (fun ref s => resolveSlot m .path ref = .ok s)
    (b.pathFields.map fun name => ⟨name, name⟩) e.pathFields
  queryFields : List.Forall₂ (fun ref s => resolveSlot m .query ref = .ok s)
    b.queryFields e.queryFields
  requestHeaderFields : List.Forall₂ (fun ref s => resolveSlot m .requestHeader ref = .ok s)
    b.requestHeaderFields e.requestHeaderFields
  path : PathTemplate.parse e.pathFields b.path = .ok e.path
  requestBody : resolveRequestBody m b = .ok e.requestBody
  responses : List.Forall₂ (fun r r' => resolveResponse m r = .ok r') b.validResponses e.responses

theorem resolved_of_ofBinding (h : ofBinding m b = .ok e) : Resolved m b e := by
  unfold ofBinding at h
  simp only [bind_eq_ok_iff, mapError_eq_ok_iff, mapM_eq_ok_iff, pure_eq_ok_iff] at h
  obtain ⟨_, checked, pathFields, hpath, queryFields, hquery, requestHeaderFields, hheader, _, -,
    path, hparse, requestBody, hbody, responses, hresponses, rfl⟩ := h
  exact {
    checked
    method := rfl
    pathFields := List.forall₂_map_left_iff.2 hpath
    queryFields := hquery
    requestHeaderFields := hheader
    path := hparse
    requestBody := hbody
    responses := hresponses }

theorem Resolved.name_pathFields (h : Resolved m b e) :
    e.pathFields.map Slot.name = b.pathFields := by
  rw [map_name_of_resolveSlot h.pathFields, List.map_map]
  exact List.map_id b.pathFields

theorem Resolved.nodup_pathFields (h : Resolved m b e) : (e.pathFields.map Slot.name).Nodup := by
  obtain ⟨nodup, perm, -⟩ := MethodBinding.checkPartition_eq_ok_iff.1 h.checked
  rw [h.name_pathFields]
  refine (perm.nodup_iff.2 nodup).sublist ?_
  simp only [MethodBinding.requestReferences, List.append_assoc]
  exact List.sublist_append_left _ _

/-- A path field goes by its own name on the wire. -/
theorem Resolved.wire_pathFields (h : Resolved m b e) {s : Slot} (hs : s ∈ e.pathFields) :
    s.wire = s.name := by
  obtain ⟨ref, href, hslot⟩ := exists_of_mem_right h.pathFields hs
  obtain ⟨name, -, rfl⟩ := List.mem_map.1 href
  rw [(resolveSlot_eq_ok_iff.1 hslot).2.1, name_of_resolveSlot hslot]

end Endpoint

/-! ## Documents -/

/-- The methods that have a binding, each with the first of its name. -/
def boundMethods (d : Document) : List (Method × MethodBinding) :=
  d.service.methods.filterMap fun m => (d.http.method? m.name).map (m, ·)

theorem mem_boundMethods_iff {d : Document} {m : Method} {b : MethodBinding} :
    (m, b) ∈ boundMethods d ↔ m ∈ d.service.methods ∧ d.http.method? m.name = some b := by
  simp only [boundMethods, List.mem_filterMap, Option.map_eq_some_iff, Prod.mk.injEq]
  constructor
  · rintro ⟨m', hm, b', hb, rfl, rfl⟩
    exact ⟨hm, hb⟩
  · rintro ⟨hm, hb⟩
    exact ⟨m, hm, b, hb, rfl, rfl⟩

theorem ofDocument_eq_ok_iff {d : Document} {api : HttpStubs.Api} :
    ofDocument d = .ok api ↔
      (∀ b ∈ d.http.methods, (d.service.method? b.name).isSome) ∧ api.service = d.service ∧
        api.baseUri = d.http.url ∧
        List.Forall₂ (fun p e => Endpoint.ofBinding p.1 p.2 = .ok e) (boundMethods d)
          api.endpoints := by
  unfold ofDocument
  split
  next b hb =>
    refine iff_of_false nofun fun h => ?_
    have hsome := h.1 b (List.mem_of_find?_eq_some hb)
    have hnone : (d.service.method? b.name).isNone := by simpa using List.find?_some hb
    simp_all
  next hknown =>
    have known : ∀ b ∈ d.http.methods, (d.service.method? b.name).isSome := by
      simpa [Option.isSome_iff_ne_none] using hknown
    simp only [bind_eq_ok_iff, pure_eq_ok_iff, mapM_eq_ok_iff]
    constructor
    · rintro ⟨endpoints, h, rfl⟩
      exact ⟨known, rfl, rfl, h⟩
    · rintro ⟨-, hservice, huri, h⟩
      refine ⟨api.endpoints, h, ?_⟩
      rw [← hservice, ← huri]

/-- Each endpoint of an accepted document comes from one of its methods and the binding of that
method. -/
theorem resolved_of_mem_endpoints {d : Document} {api : HttpStubs.Api} (h : ofDocument d = .ok api)
    {e : Endpoint} (he : e ∈ api.endpoints) :
    ∃ b, d.http.method? e.name = some b ∧ Endpoint.Resolved e.method b e := by
  obtain ⟨⟨m, b⟩, hmem, hbind⟩ := exists_of_mem_right (ofDocument_eq_ok_iff.1 h).2.2.2 he
  have hres := Endpoint.resolved_of_ofBinding hbind
  refine ⟨b, ?_, hres.method ▸ hres⟩
  rw [Endpoint.name, hres.method]
  exact (mem_boundMethods_iff.1 hmem).2

end HttpStubs.Api
