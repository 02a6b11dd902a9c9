import HttpStubs.Proofs.Traversal
import HttpStubs.Service.Document
import Mathlib.Data.List.Perm.Basic

/-!
# The partition of the request fields

What the check of a document accepts. A binding fits a method if the request fields have distinct
names, its references to request fields are these names in some order, and each of its references
to a response field names one (`checkPartition_eq_ok_iff`). A document is accepted if each binding
fits the first method of its name (`check_eq_ok_iff`).
-/

namespace HttpStubs.Service

/-! ## Look-up by name -/

theorem Method.field?_isSome_iff {m : Method} {side : Direction} {name : String} :
    (m.field? side name).isSome ↔ name ∈ (m.fields side).map (·.name) := by
  simp [Method.field?, List.find?_isSome]

/-- The first element of a name is an element of that name. -/
theorem mem_of_find?_name {α : Type} {name : α → String} {xs : List α} {n : String} {x : α}
    (h : xs.find? (name · == n) = some x) : x ∈ xs ∧ name x = n :=
  ⟨List.mem_of_find?_eq_some h, by simpa using List.find?_some h⟩

theorem Method.name_of_field? {m : Method} {side : Direction} {name : String} {f : Field}
    (h : m.field? side name = some f) : f.name = name :=
  (mem_of_find?_name h).2

theorem Definition.mem_of_method? {s : Definition} {name : String} {m : Method}
    (h : s.method? name = some m) : m ∈ s.methods ∧ m.name = name :=
  mem_of_find?_name h

theorem Binding.mem_of_method? {h : Binding} {name : String} {b : MethodBinding}
    (hb : h.method? name = some b) : b ∈ h.methods ∧ b.name = name :=
  mem_of_find?_name hb

/-- Where names are distinct, the first element of a name is the only one. -/
theorem find?_name_eq_some {α : Type} {name : α → String} {xs : List α}
    (distinct : (xs.map name).Nodup) {x : α} (hx : x ∈ xs) :
    xs.find? (name · == name x) = some x := by
  induction xs with
  | nil => cases hx
  | cons y ys ih =>
    rw [List.map_cons, List.nodup_cons] at distinct
    rcases List.mem_cons.1 hx with rfl | hx
    · simp
    · have hne : name y ≠ name x := fun h => distinct.1 (h ▸ List.mem_map_of_mem hx)
      rw [List.find?_cons_of_neg (by simpa using hne)]
      exact ih distinct.2 hx

/-! ## Counting references -/

theorem perm_cons_filter_of_count {refs : List String} {name : String}
    (h : refs.count name = 1) : refs.Perm (name :: refs.filter (· != name)) := by
  rw [List.perm_iff_count]
  intro other
  by_cases ho : other = name
  · subst ho
    simp [h, List.count_eq_zero]
  · rw [List.count_cons_of_ne (Ne.symm ho), List.count_filter (by simpa using ho)]

/-- Each field counts one reference, and no reference is left over, exactly if the names are
distinct and the references are the names in some order. -/
theorem countReferences_eq_one_iff (fields : List Field) (refs : List String) :
    ((∀ r ∈ refs, r ∈ fields.map (·.name)) ∧ ∀ p ∈ countReferences fields refs, p.2 = 1) ↔
      (fields.map (·.name)).Nodup ∧ refs.Perm (fields.map (·.name)) := by
  induction fields generalizing refs with
  | nil => simp [countReferences, List.eq_nil_iff_forall_not_mem]
  | cons f fs ih =>
    have ih := ih (refs.filter (· != f.name))
    simp only [countReferences, List.map_cons, List.forall_mem_cons, List.nodup_cons]
    constructor
    · rintro ⟨known, one, rest⟩
      obtain ⟨distinct, perm⟩ := ih.1 ⟨fun r hr => by
        obtain ⟨hr, hne⟩ := List.mem_filter.1 hr
        exact (List.mem_cons.1 (known r hr)).resolve_left (by simpa using hne), rest⟩
      refine ⟨⟨fun hf => ?_, distinct⟩, (perm_cons_filter_of_count one).trans (perm.cons _)⟩
      simpa using (List.mem_filter.1 (perm.mem_iff.2 hf)).2
    · rintro ⟨⟨fresh, distinct⟩, perm⟩
      have one : refs.count f.name = 1 := by
        rw [perm.count_eq, List.count_cons_self, List.count_eq_zero.2 fresh]
      have perm' := ((perm_cons_filter_of_count one).symm.trans perm).cons_inv
      exact ⟨fun r hr => perm.mem_iff.1 hr, one, (ih.2 ⟨distinct, perm'⟩).2⟩

/-! ## Accepted bindings -/

theorem Method.unknownReference?_eq_none_iff {m : Method} {side : Direction} {refs : List String} :
    m.unknownReference? side refs = none ↔ ∀ name ∈ refs, (m.field? side name).isSome := by
  simp [Method.unknownReference?, List.find?_eq_none, Option.isSome_iff_ne_none]

theorem MethodBinding.checkPartition_eq_ok_iff {b : MethodBinding} {m : Method} :
    b.checkPartition m = .ok () ↔
      (m.requestFields.map (·.name)).Nodup ∧
        b.requestReferences.Perm (m.requestFields.map (·.name)) ∧
        ∀ name ∈ b.responseReferences, (m.field? .response name).isSome := by
  rw [← and_assoc, ← countReferences_eq_one_iff, ← Method.unknownReference?_eq_none_iff]
  have known : (∀ r ∈ b.requestReferences, r ∈ m.requestFields.map (·.name)) ↔
      m.unknownReference? .request b.requestReferences = none := by
    simp only [Method.unknownReference?_eq_none_iff, Method.field?_isSome_iff, Method.fields]
  have counted : (∀ p ∈ countReferences m.requestFields b.requestReferences, p.2 = 1) ↔
      (countReferences m.requestFields b.requestReferences).find? (·.2 != 1) = none := by
    simp [List.find?_eq_none]
  rw [known, counted]
  unfold MethodBinding.checkPartition
  split
  next h => simp [h]
  next h =>
    split
    next h' => simp [h']
    next h' =>
      split
      next h'' => simp [h'']
      next h'' => exact iff_of_true rfl ⟨⟨h, h'⟩, h''⟩

/-- What every binding of an accepted document has. -/
theorem Document.check_eq_ok_iff {d : Document} :
    d.check = .ok () ↔
      ∀ b ∈ d.http.methods, ∃ m, d.service.method? b.name = some m ∧ b.checkPartition m = .ok () := by
  rw [Document.check, forM_eq_ok_iff]
  refine forall₂_congr fun b _ => ?_
  unfold Definition.checkBinding
  split <;> simp_all

end HttpStubs.Service
