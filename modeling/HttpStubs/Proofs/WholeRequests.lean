import Mathlib.Data.List.Nodup
import Mathlib.Data.List.Perm.Basic
import HttpStubs.Proofs.RequestCarriage
import HttpStubs.Stub.Client

/-!
# Requests that are sent as a whole

A request is its own body if its normal fields are as many as its fields. The check has seen that
the references are the field names in some order, so the number alone decides that nothing is bound
apart from the normal fields (`apart`), and then the request object holds exactly the members that
an object literal of the normal fields would copy from it (`copied`).
-/

namespace HttpStubs.Api

open Code (Step)
open Service (Field Method MethodBinding)

/-! ## Fields bound apart from the normal fields -/

/-- References to request fields outside the normal fields: path, query, headers, body. -/
def apart (b : MethodBinding) : List String :=
  b.pathFields ++ b.queryFields.map (·.field) ++ b.requestHeaderFields.map (·.field) ++
    b.requestBodyField.toList

theorem requestReferences_eq (b : MethodBinding) :
    b.requestReferences = apart b ++ b.requestNormalFields :=
  rfl

theorem apart_eq_nil_iff {b : MethodBinding} :
    apart b = [] ↔
      b.pathFields = [] ∧ b.queryFields = [] ∧ b.requestHeaderFields = [] ∧
        b.requestBodyField = none := by
  simp only [apart, List.append_eq_nil_iff, List.map_eq_nil_iff, Option.toList_eq_nil_iff,
    and_assoc]

section Partition

variable {m : Method} {b : MethodBinding}
  (perm : b.requestReferences.Perm (m.requestFields.map (·.name)))

include perm

theorem length_normal_eq_iff :
    b.requestNormalFields.length = m.requestFields.length ↔ apart b = [] := by
  have htotal := perm.length_eq
  rw [requestReferences_eq, List.length_append, List.length_map] at htotal
  rw [← List.length_eq_zero_iff]
  omega

theorem all_normal_iff (nodup : (m.requestFields.map (·.name)).Nodup) :
    (∀ f ∈ m.requestFields, f.name ∈ b.requestNormalFields) ↔ apart b = [] := by
  rw [requestReferences_eq] at perm
  have hdisjoint := (List.nodup_append'.1 (perm.nodup_iff.2 nodup)).2.2
  constructor
  · -- A name that is bound apart is a field, so it would be a normal field as well.
    intro hall
    refine List.eq_nil_iff_forall_not_mem.2 fun name hname => ?_
    obtain ⟨f, hf, rfl⟩ := List.mem_map.1 (perm.mem_iff.1 (List.mem_append_left _ hname))
    exact hdisjoint hname (hall f hf)
  · intro hnil f hf
    rw [hnil, List.nil_append] at perm
    exact perm.mem_iff.2 (List.mem_map_of_mem hf)

end Partition

/-! ## Members of the body -/

section Members

variable {V : Type}

/-- The members that an object literal of these names copies from a request; a name without a value
gives none. -/
def copied (names : List String) (request : List (String × V)) : List (String × V) :=
  names.filterMap fun name => (request.lookup name).map (name, ·)

/-- The members of the object that a body makes of a request. -/
def RequestBody.members (request : List (String × V)) : RequestBody → Option (List (String × V))
  | .none | .field _ => Option.none
  | .wholeRequest => some request
  | .normal fields => some (copied (fields.map (·.name)) request)

/-- The objects that are requests of a method: members of distinct names, each of a request field. A
field may lack a value. -/
def IsRequest (m : Method) (request : List (String × V)) : Prop :=
  (request.map Prod.fst).Nodup ∧ ∀ p ∈ request, p.1 ∈ m.requestFields.map (·.name)

theorem lookup_eq_some_iff_mem {request : List (String × V)} (keys : (request.map Prod.fst).Nodup)
    {name : String} {value : V} : request.lookup name = some value ↔ (name, value) ∈ request := by
  induction request with
  | nil => simp
  | cons p request ih =>
    obtain ⟨key, value'⟩ := p
    rw [List.map_cons, List.nodup_cons] at keys
    rw [List.lookup_cons, List.mem_cons]
    by_cases hkey : name = key
    · subst hkey
      have hfresh : (name, value) ∉ request := fun h => keys.1 (List.mem_map.2 ⟨_, h, rfl⟩)
      simp [hfresh, eq_comm]
    · have hbeq : (name == key) = false := beq_eq_false_iff_ne.2 hkey
      simp [hbeq, hkey, ih keys.2]

theorem mem_copied_iff {names : List String} {request : List (String × V)} {p : String × V} :
    p ∈ copied names request ↔ p.1 ∈ names ∧ request.lookup p.1 = some p.2 := by
  simp only [copied, List.mem_filterMap, Option.map_eq_some_iff]
  constructor
  · rintro ⟨name, hname, value, hvalue, rfl⟩
    exact ⟨hname, hvalue⟩
  · rintro ⟨hname, hvalue⟩
    exact ⟨p.1, hname, p.2, hvalue, rfl⟩

theorem nodup_copied {names : List String} (distinct : names.Nodup) (request : List (String × V)) :
    (copied names request).Nodup := by
  refine distinct.filterMap fun name name' p h h' => ?_
  obtain ⟨value, -, hp⟩ := Option.map_eq_some_iff.1 h
  obtain ⟨value', -, hp'⟩ := Option.map_eq_some_iff.1 h'
  exact congrArg Prod.fst (hp.trans hp'.symm)

theorem IsRequest.perm_copied {m : Method} {request : List (String × V)} (h : IsRequest m request)
    {names : List String} (distinct : names.Nodup)
    (all : ∀ f ∈ m.requestFields, f.name ∈ names) : request.Perm (copied names request) := by
  refine (List.perm_ext_iff_of_nodup (.of_map _ h.1) (nodup_copied distinct request)).2 fun p => ?_
  rw [mem_copied_iff, lookup_eq_some_iff_mem h.1]
  refine ⟨fun hp => ⟨?_, hp⟩, fun hp => hp.2⟩
  obtain ⟨f, hf, hname⟩ := List.mem_map.1 (h.2 p hp)
  exact hname ▸ all f hf

end Members

end HttpStubs.Api

/-! ## The request as an expression -/

namespace HttpStubs.Stub.Client

open Api (Endpoint RequestBody)
open Code

theorem propertyAccess_ne (object name : String) : propertyAccess object name ≠ object := by
  intro h
  have hlen := congrArg String.length h
  unfold propertyAccess at hlen
  split_ifs at hlen <;> simp only [String.length_append] at hlen
  · have hdot : ".".length = 1 := rfl
    omega
  · have hbracket : "[".length = 1 := rfl
    omega

theorem bodyExpression?_eq_request_iff {body : RequestBody} :
    bodyExpression? body = some "request" ↔ body = .wholeRequest := by
  cases body with
  | none => exact iff_of_false nofun nofun
  | field f =>
    refine iff_of_false (fun h => ?_) nofun
    exact propertyAccess_ne "request" f.name (Option.some.inj h)
  | wholeRequest => exact iff_of_true rfl rfl
  | normal fields =>
    refine iff_of_false (fun h => ?_) nofun
    have hhead := congrArg (·.toList.head?) (Option.some.inj h)
    simp [braced] at hhead

/-- The client serialises the request object itself exactly if the request is its own body. -/
theorem serializes_request_iff (e : Endpoint) :
    Step.line "body: JSON.stringify(request)," ∈ bodySteps e ↔ e.requestBody = .wholeRequest := by
  have hsplit : "body: JSON.stringify(request)," =
      "body: JSON.stringify(" ++ "request" ++ ")," := rfl
  rw [← bodyExpression?_eq_request_iff, bodySteps]
  cases bodyExpression? e.requestBody with
  | none => split_ifs <;> simp
  | some body =>
    have hother : Step.line "body: JSON.stringify(request)," ≠
        .line "headers: \x7b 'Content-Type': 'application/json' \x7d," := by
      simp
    rw [List.mem_cons, or_iff_right hother, List.mem_singleton, Step.line.injEq, hsplit,
      String.append_left_inj, String.append_right_inj, Option.some.injEq]
    exact eq_comm

end HttpStubs.Stub.Client

namespace HttpStubs.Api

open Code (Step)
open Service (Field Method MethodBinding)

/-! ## The classification -/

namespace Endpoint.Resolved

variable {m : Method} {b : MethodBinding} {e : Endpoint}

theorem wholeRequest_iff_apart (h : Resolved m b e) :
    e.requestBody = .wholeRequest ↔ m.requestFields ≠ [] ∧ apart b = [] := by
  obtain ⟨-, perm, -⟩ := MethodBinding.checkPartition_eq_ok_iff.1 h.checked
  have hlength := length_normal_eq_iff perm
  obtain ⟨f, hb, hbody⟩ | ⟨-, ⟨hnil, hbody⟩ | ⟨hne, ⟨hlen, hbody⟩ | ⟨hlen, fields, -, hbody⟩⟩⟩ :=
    resolveRequestBody_cases h.requestBody
  · -- The body field itself is bound apart.
    refine iff_of_false (by simp [hbody]) fun hall => ?_
    have hnone := (apart_eq_nil_iff.1 hall.2).2.2.2
    rw [hb] at hnone
    cases hnone
  · refine iff_of_false (by simp [hbody]) fun hall => hall.1 ?_
    have hlen := hlength.2 hall.2
    rw [hnil, List.length_nil] at hlen
    exact List.length_eq_zero_iff.1 hlen.symm
  · refine iff_of_true hbody ⟨fun hfields => hne ?_, hlength.1 hlen⟩
    rw [hfields, List.length_nil] at hlen
    exact List.length_eq_zero_iff.1 hlen
  · exact iff_of_false (by simp [hbody]) fun hall => hlen (hlength.2 hall.2)

/-- Beside normal fields that are written out one by one, some field is in the path, the query or
the headers. -/
theorem exists_apart_of_normal (h : Resolved m b e) {fields : List Field}
    (hbody : e.requestBody = .normal fields) :
    ∃ f ∈ m.requestFields, f.name ∉ b.requestNormalFields ∧
      f.name ∈ b.pathFields ++ b.queryFields.map (·.field) ++
        b.requestHeaderFields.map (·.field) := by
  obtain ⟨nodup, perm, -⟩ := MethodBinding.checkPartition_eq_ok_iff.1 h.checked
  have hcases := resolveRequestBody_cases h.requestBody
  simp only [hbody, reduceCtorEq, and_false, exists_false, false_or] at hcases
  obtain ⟨hb, -, hlen, -⟩ := hcases
  have hsome := mt (all_normal_iff perm nodup).1 (mt (length_normal_eq_iff perm).2 hlen)
  obtain ⟨f, hf, hnot⟩ := by simpa using hsome
  refine ⟨f, hf, hnot, ?_⟩
  -- It is referenced, neither as a normal field nor, as there is none, as the body field.
  have hmem := perm.mem_iff.2 (List.mem_map_of_mem hf)
  rw [requestReferences_eq, List.mem_append, or_iff_left hnot, apart, hb, Option.toList_none,
    List.append_nil] at hmem
  exact hmem

theorem members_perm {V : Type} (h : Resolved m b e) {request sent : List (String × V)}
    (hrequest : IsRequest m request) (hsent : e.requestBody.members request = some sent) :
    sent.Perm (copied b.requestNormalFields request) := by
  obtain ⟨nodup, perm, -⟩ := MethodBinding.checkPartition_eq_ok_iff.1 h.checked
  obtain ⟨f, -, hbody⟩ | ⟨-, ⟨-, hbody⟩ | ⟨-, ⟨hlen, hbody⟩ | ⟨-, fields, hfields, hbody⟩⟩⟩ :=
    resolveRequestBody_cases h.requestBody <;> rw [hbody] at hsent
  · cases hsent
  · cases hsent
  · obtain rfl := Option.some.inj hsent
    have hnormal := normal_perm_of_length perm hlen
    exact hrequest.perm_copied (hnormal.nodup_iff.2 nodup)
      fun f hf => hnormal.mem_iff.2 (List.mem_map_of_mem hf)
  · obtain rfl := Option.some.inj hsent
    rw [hfields]

end Endpoint.Resolved

/-- A request is its own body exactly if it has fields and all of them are normal fields; the client
then serialises the request object itself, and no field is bound anywhere else. Normal fields are
written out one by one only if some field is bound elsewhere. Either way the object that is sent has
exactly the members of the normal fields. -/
theorem wholeRequest_iff_all_normal {V : Type} {m : Method} {b : MethodBinding} {e : Endpoint}
    (h : Endpoint.ofBinding m b = .ok e) :
    (e.requestBody = .wholeRequest ↔
        m.requestFields ≠ [] ∧ ∀ f ∈ m.requestFields, f.name ∈ b.requestNormalFields) ∧
      (Step.line "body: JSON.stringify(request)," ∈ Stub.Client.bodySteps e ↔
        e.requestBody = .wholeRequest) ∧
      (e.requestBody = .wholeRequest →
        b.pathFields = [] ∧ b.queryFields = [] ∧ b.requestHeaderFields = [] ∧
          b.requestBodyField = none) ∧
      (∀ fields, e.requestBody = .normal fields →
        ∃ f ∈ m.requestFields, f.name ∉ b.requestNormalFields ∧
          f.name ∈ b.pathFields ++ b.queryFields.map (·.field) ++
            b.requestHeaderFields.map (·.field)) ∧
      ∀ request sent : List (String × V), IsRequest m request →
        e.requestBody.members request = some sent →
        sent.Perm (copied b.requestNormalFields request) := by
  have hres := Endpoint.resolved_of_ofBinding h
  obtain ⟨nodup, perm, -⟩ := MethodBinding.checkPartition_eq_ok_iff.1 hres.checked
  refine ⟨?_, Stub.Client.serializes_request_iff e, fun hwhole => ?_,
    fun _ => hres.exists_apart_of_normal, fun _ _ => hres.members_perm⟩
  · rw [hres.wholeRequest_iff_apart, all_normal_iff perm nodup]
  · exact apart_eq_nil_iff.1 (hres.wholeRequest_iff_apart.1 hwhole).2

/-- Two normal fields, named in another order than the method declares them. -/
def createBinding : MethodBinding where
  name := "createWidget"
  verb := .post
  path := "/widgets"
  requestNormalFields := ["note", "widget"]

/-- A request without its note is sent as it is. -/
theorem create_sends_widget :
    Endpoint.ofBinding createMethod createBinding = .ok (createEndpoint .wholeRequest) ∧
      Step.line "body: JSON.stringify(request)," ∈
        Stub.Client.bodySteps (createEndpoint .wholeRequest) ∧
      IsRequest createMethod [("widget", 7)] ∧
      RequestBody.wholeRequest.members [("widget", 7)] = some [("widget", 7)] ∧
      [("widget", 7)].Perm (copied ["note", "widget"] [("widget", 7)]) := by
  have h : Endpoint.ofBinding createMethod createBinding = .ok (createEndpoint .wholeRequest) := rfl
  have hrequest : IsRequest createMethod [("widget", 7)] := by
    unfold IsRequest
    decide
  obtain ⟨-, hline, -, -, hsent⟩ := wholeRequest_iff_all_normal h
  exact ⟨h, hline.2 rfl, hrequest, rfl, hsent _ _ hrequest rfl⟩

end HttpStubs.Api
