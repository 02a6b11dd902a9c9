import HttpStubs.Proofs.Resolution

/-!
# The check and the resolution of a document

The check goes through the bindings and looks up methods; the resolution goes through the methods
and looks up bindings. Where method names are distinct, a checked document resolves without a
binding fault: each look-up of a field finds what the check has found. Where the bindings name
distinct methods, a document that fails the check does not resolve.
-/

namespace HttpStubs.Api

open Service (BindingFault Direction Document Field Method MethodBinding ValidResponse WireField)

/-- A fault that the check of a document does not look for: the type of a slot, or the path
template. -/
def Fault.IsUnchecked : Fault → Prop
  | .binding _ => False
  | .slot .. => True
  | .path .. => True

/-! ## Look-ups in a checked binding -/

section

variable {m : Method} {b : MethodBinding} (checked : b.checkPartition m = .ok ())
include checked

theorem request_field_of_checked {name : String} (h : name ∈ b.requestReferences) :
    ∃ f, m.field? .request name = some f := by
  obtain ⟨-, perm, -⟩ := MethodBinding.checkPartition_eq_ok_iff.1 checked
  exact Option.isSome_iff_exists.1 (Method.field?_isSome_iff.2 (perm.mem_iff.1 h))

theorem response_field_of_checked {name : String} (h : name ∈ b.responseReferences) :
    ∃ f, m.field? .response name = some f := by
  obtain ⟨-, -, known⟩ := MethodBinding.checkPartition_eq_ok_iff.1 checked
  exact Option.isSome_iff_exists.1 (known name h)

end

namespace Endpoint

variable {m : Method} {b : MethodBinding}

theorem resolveField_of_known {side : Direction} {name : String}
    (known : ∃ f, m.field? side name = some f) :
    FailsOnly Fault.IsUnchecked (resolveField m side name) := by
  obtain ⟨f, hf⟩ := known
  rw [resolveField_eq_ok_iff.2 hf]
  exact failsOnly_ok f

theorem resolveSlot_of_known {place : Place} {ref : WireField}
    (known : ∃ f, m.field? place.side ref.field = some f) :
    FailsOnly Fault.IsUnchecked (resolveSlot m place ref) := by
  refine (resolveField_of_known known).bind fun f _ => ?_
  split
  next kind _ => exact failsOnly_ok _
  next => exact fun fault h => by cases h; trivial

theorem resolveRequestBody_of_checked (checked : b.checkPartition m = .ok ()) :
    FailsOnly Fault.IsUnchecked (resolveRequestBody m b) := by
  unfold resolveRequestBody
  split
  next name hname =>
    refine (resolveField_of_known (request_field_of_checked checked ?_)).bind fun f _ =>
      failsOnly_ok _
    simp [MethodBinding.requestReferences, hname]
  next =>
    split_ifs
    · exact failsOnly_ok _
    · exact failsOnly_ok _
    · refine (FailsOnly.mapM fun name hname => ?_).bind fun fields _ => failsOnly_ok _
      refine resolveField_of_known (request_field_of_checked checked ?_)
      simp [MethodBinding.requestReferences, hname]

/-- The fields that a response of that shape holds. -/
def shapeReferences : Service.ResponseShape → List String
  | .empty => []
  | .body name => [name]
  | .normal names => names

/-- The shape leaves out the normal fields beside a body field and adds none. -/
theorem mem_references_of_shape {r : ValidResponse} {name : String}
    (h : name ∈ shapeReferences r.shape) : name ∈ r.references := by
  unfold ValidResponse.shape at h
  unfold ValidResponse.references
  split at h <;> simp_all [shapeReferences]

theorem resolveResponse_of_checked (checked : b.checkPartition m = .ok ()) {r : ValidResponse}
    (hr : r ∈ b.validResponses) : FailsOnly Fault.IsUnchecked (resolveResponse m r) := by
  have known : ∀ name ∈ shapeReferences r.shape, ∃ f, m.field? .response name = some f := by
    intro name hname
    have hmem := List.mem_flatMap.2 ⟨r, hr, mem_references_of_shape hname⟩
    exact response_field_of_checked checked (List.mem_append_right _ hmem)
  unfold resolveResponse
  split
  next => exact failsOnly_ok _
  next name hshape =>
    rw [hshape] at known
    exact (resolveField_of_known (known name List.mem_cons_self)).bind fun f _ => failsOnly_ok _
  next names hshape =>
    rw [hshape] at known
    refine (FailsOnly.mapM fun name hname => ?_).bind fun fields _ => failsOnly_ok _
    exact resolveField_of_known (known name hname)

/-- Each step of the resolution looks up references that the check has looked up. -/
theorem ofBinding_of_checked (checked : b.checkPartition m = .ok ()) :
    FailsOnly Fault.IsUnchecked (ofBinding m b) := by
  have hcheck : FailsOnly Fault.IsUnchecked ((b.checkPartition m).mapError Fault.binding) := by
    rw [checked]
    exact failsOnly_ok ()
  have hpath : ∀ name ∈ b.pathFields, name ∈ b.requestReferences := by
    intro name hname
    simp [MethodBinding.requestReferences, hname]
  have hquery : ∀ ref ∈ b.queryFields, ref.field ∈ b.requestReferences := by
    intro ref href
    simp [MethodBinding.requestReferences, List.mem_map_of_mem href]
  have hheader : ∀ ref ∈ b.requestHeaderFields, ref.field ∈ b.requestReferences := by
    intro ref href
    simp [MethodBinding.requestReferences, List.mem_map_of_mem href]
  have hresponse : ∀ ref ∈ b.responseHeaderFields, ref.field ∈ b.responseReferences := by
    intro ref href
    simp [MethodBinding.responseReferences, List.mem_map_of_mem href]
  refine hcheck.bind fun _ _ => ?_
  refine (FailsOnly.mapM fun name h => ?_).bind fun pathFields _ => ?_
  · exact resolveSlot_of_known (request_field_of_checked checked (hpath name h))
  refine (FailsOnly.mapM fun ref h => ?_).bind fun queryFields _ => ?_
  · exact resolveSlot_of_known (request_field_of_checked checked (hquery ref h))
  refine (FailsOnly.mapM fun ref h => ?_).bind fun requestHeaderFields _ => ?_
  · exact resolveSlot_of_known (request_field_of_checked checked (hheader ref h))
  refine (FailsOnly.mapM fun ref h => ?_).bind fun responseHeaderFields _ => ?_
  · exact resolveSlot_of_known (response_field_of_checked checked (hresponse ref h))
  refine (failsOnly_mapError fun _ => trivial).bind fun path _ => ?_
  refine (resolveRequestBody_of_checked checked).bind fun requestBody _ => ?_
  refine (FailsOnly.mapM fun r hr => ?_).bind fun responses _ => failsOnly_ok _
  exact resolveResponse_of_checked checked hr

end Endpoint

/-! ## The two traversals -/

/-- The binding that the resolution takes for a method has been checked against that method. -/
theorem checked_of_mem_boundMethods {d : Document} (hnames : (d.service.methods.map (·.name)).Nodup)
    (hcheck : d.check = .ok ()) {m : Method} {b : MethodBinding} (h : (m, b) ∈ boundMethods d) :
    b.checkPartition m = .ok () := by
  obtain ⟨hm, hb⟩ := mem_boundMethods_iff.1 h
  obtain ⟨hb, hname⟩ := Service.Binding.mem_of_method? hb
  obtain ⟨m', hm', checked⟩ := Service.Document.check_eq_ok_iff.1 hcheck b hb
  have hfind : d.service.method? m.name = some m := Service.find?_name_eq_some hnames hm
  rw [hname, hfind] at hm'
  rwa [Option.some.inj hm']

/-- The method that the check takes for a binding is resolved with that binding. -/
theorem mem_boundMethods_of_method? {d : Document} (hnames : (d.http.methods.map (·.name)).Nodup)
    {b : MethodBinding} (hb : b ∈ d.http.methods) {m : Method}
    (hm : d.service.method? b.name = some m) : (m, b) ∈ boundMethods d := by
  obtain ⟨hmem, hname⟩ := Service.Definition.mem_of_method? hm
  refine mem_boundMethods_iff.2 ⟨hmem, ?_⟩
  rw [hname]
  exact Service.find?_name_eq_some hnames hb

theorem ofDocument_of_checked {d : Document} (hnames : (d.service.methods.map (·.name)).Nodup)
    (hcheck : d.check = .ok ()) : FailsOnly Fault.IsUnchecked (ofDocument d) := by
  unfold ofDocument
  split
  next b hb =>
    obtain ⟨m, hm, -⟩ :=
      Service.Document.check_eq_ok_iff.1 hcheck b (List.mem_of_find?_eq_some hb)
    have hnone := List.find?_some hb
    simp [hm] at hnone
  next =>
    refine (FailsOnly.mapM fun p hp => ?_).bind fun endpoints _ => failsOnly_ok _
    exact Endpoint.ofBinding_of_checked (checked_of_mem_boundMethods hnames hcheck hp)

theorem check_of_ofDocument {d : Document} (hnames : (d.http.methods.map (·.name)).Nodup)
    {api : HttpStubs.Api} (h : ofDocument d = .ok api) : d.check = .ok () := by
  obtain ⟨known, -, -, hendpoints⟩ := ofDocument_eq_ok_iff.1 h
  refine Service.Document.check_eq_ok_iff.2 fun b hb => ?_
  obtain ⟨m, hm⟩ := Option.isSome_iff_exists.1 (known b hb)
  obtain ⟨e, -, he⟩ := exists_of_mem_left hendpoints (mem_boundMethods_of_method? hnames hb hm)
  exact ⟨m, hm, (Endpoint.resolved_of_ofBinding he).checked⟩

/-- A checked document whose methods have distinct names resolves, or fails for the type of a slot
or for a path template. A document that fails the check, and binds each method at most once, fails
to resolve. -/
theorem check_ofDocument_agree (d : Document) :
    ((d.service.methods.map (·.name)).Nodup → d.check = .ok () →
      (∃ api, ofDocument d = .ok api) ∨
        (∃ method field place type, ofDocument d = .error (.slot method field place type)) ∨
        ∃ method template fault, ofDocument d = .error (.path method template fault)) ∧
    ((d.http.methods.map (·.name)).Nodup → (∃ fault, d.check = .error fault) →
      ∃ fault, ofDocument d = .error fault) := by
  constructor
  · intro hnames hcheck
    have hfails := ofDocument_of_checked hnames hcheck
    cases hd : ofDocument d with
    | ok api => exact .inl ⟨api, rfl⟩
    | error fault =>
      cases fault with
      | binding fault => exact (hfails _ hd).elim
      | slot method field place type => exact .inr (.inl ⟨method, field, place, type, rfl⟩)
      | path method template fault => exact .inr (.inr ⟨method, template, fault, rfl⟩)
  · rintro hnames ⟨fault, hfault⟩
    cases hd : ofDocument d with
    | ok api =>
      rw [check_of_ofDocument hnames hd] at hfault
      cases hfault
    | error fault' => exact ⟨fault', rfl⟩

/-- A document of one method with one query field, bound as `query` says. -/
def searchDocument (type : Service.ValueType) (query : List WireField) : Document where
  service := {
    name := "Widgets"
    methods := [{ name := "search", requestFields := [{ name := "text", type }] }] }
  http := { methods := [{ name := "search", verb := .get, path := "/search", queryFields := query }] }

/-- A document that passes the check and fails for the type of a slot, and one that fails the
check. -/
theorem check_ofDocument_agree_search :
    (∃ method field place type,
      ofDocument (searchDocument .object [⟨"text", "q"⟩]) = .error (.slot method field place type)) ∧
    ∃ fault, ofDocument (searchDocument .string []) = .error fault := by
  constructor
  · have hsome := (check_ofDocument_agree (searchDocument .object [⟨"text", "q"⟩])).1 (by decide) rfl
    rcases hsome with ⟨api, h⟩ | hslot | ⟨method, template, fault, h⟩
    · cases h
    · exact hslot
    · cases h
  · exact (check_ofDocument_agree (searchDocument .string [])).2 (by decide) ⟨_, rfl⟩

end HttpStubs.Api
