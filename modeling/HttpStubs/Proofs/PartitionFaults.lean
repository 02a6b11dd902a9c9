import HttpStubs.Proofs.Partition

/-!
# The first fault of a binding

What `checkPartition` reports. A reference counts for the first field of its name, so a field counts
the references to its name unless an earlier field has the name already (`countBehind`).
`FirstFault` lists the faults in the order of precedence: an unknown reference to a request field, a
request field that is not bound exactly once, an unknown reference to a response field, and of each
kind the first one in order. The check accepts exactly the partitions and reports exactly the first
fault (`checkPartition_exact`).
-/

namespace HttpStubs.Service

/-- The names of the fields on one side of a method. -/
def Method.names (m : Method) (side : Direction) : List String :=
  (m.fields side).map (·.name)

/-! ## Counts -/

/-- The number of references that count for a field behind the fields `before`. -/
def countBehind (before : List Field) (refs : List String) (f : Field) : Nat :=
  if f.name ∈ before.map (·.name) then 0 else refs.count f.name

/-- Each of the fields counts one reference. -/
def BoundOnce (refs : List String) (fields : List Field) : Prop :=
  ∀ before f after, fields = before ++ f :: after → countBehind before refs f = 1

theorem map_fst_countReferences (fields : List Field) (refs : List String) :
    (countReferences fields refs).map (·.1) = fields := by
  induction fields generalizing refs with
  | nil => rfl
  | cons f fs ih => rw [countReferences, List.map_cons, ih]

/-- The fields that come first take the references to their names away. -/
theorem countReferences_append (before fields : List Field) (refs : List String) :
    countReferences (before ++ fields) refs =
      countReferences before refs ++
        countReferences fields (refs.filter (· ∉ before.map (·.name))) := by
  induction before generalizing refs with
  | nil => simp [countReferences]
  | cons f fs ih =>
    rw [List.cons_append, countReferences, countReferences, ih, List.cons_append,
      List.filter_filter]
    congr 4
    funext name
    by_cases h : name = f.name <;> simp [h]

theorem count_filter_not_mem (refs names : List String) (name : String) :
    (refs.filter (· ∉ names)).count name = if name ∈ names then 0 else refs.count name := by
  split_ifs with hmem
  · exact List.count_eq_zero.2 fun h => of_decide_eq_true (List.mem_filter.1 h).2 hmem
  · exact List.count_filter (by simpa using hmem)

theorem countReferences_split (before : List Field) (f : Field) (after : List Field)
    (refs : List String) :
    ∃ rest, countReferences (before ++ f :: after) refs =
      countReferences before refs ++ (f, countBehind before refs f) :: rest := by
  rw [countReferences_append, countReferences, count_filter_not_mem]
  exact ⟨_, rfl⟩

/-- A place in the list of counts is a place in the list of fields. -/
theorem countReferences_eq_append {fields : List Field} {refs : List String}
    {counted rest : List (Field × Nat)} {f : Field} {count : Nat}
    (h : countReferences fields refs = counted ++ (f, count) :: rest) :
    ∃ before after, fields = before ++ f :: after ∧ counted = countReferences before refs ∧
      count = countBehind before refs f := by
  have hfields : fields = counted.map (·.1) ++ f :: rest.map (·.1) := by
    rw [← map_fst_countReferences fields refs, h, List.map_append, List.map_cons]
  refine ⟨counted.map (·.1), rest.map (·.1), hfields, ?_⟩
  obtain ⟨others, hsplit⟩ :=
    countReferences_split (counted.map (·.1)) f (rest.map (·.1)) refs
  rw [← hfields, h] at hsplit
  have hlength : counted.length = (countReferences (counted.map (·.1)) refs).length := by
    have hmap := map_fst_countReferences (counted.map (·.1)) refs
    simpa using (congrArg List.length hmap).symm
  obtain ⟨hcounted, htail⟩ := List.append_inj hsplit hlength
  exact ⟨hcounted, (Prod.ext_iff.1 (List.cons.inj htail).1).2⟩

theorem boundOnce_iff {refs : List String} {fields : List Field} :
    BoundOnce refs fields ↔ ∀ p ∈ countReferences fields refs, p.2 = 1 := by
  constructor
  · intro once p hp
    obtain ⟨counted, rest, hsplit⟩ := List.append_of_mem hp
    obtain ⟨before, after, hfields, -, hcount⟩ := countReferences_eq_append hsplit
    exact hcount.trans (once before p.1 after hfields)
  · rintro hall before f after rfl
    obtain ⟨rest, hsplit⟩ := countReferences_split before f after refs
    exact hall (f, countBehind before refs f) (by simp [hsplit])

theorem find?_countReferences_eq_some_iff {fields : List Field} {refs : List String} {f : Field}
    {count : Nat} :
    (countReferences fields refs).find? (·.2 != 1) = some (f, count) ↔
      ∃ before after, fields = before ++ f :: after ∧ BoundOnce refs before ∧
        count = countBehind before refs f ∧ count ≠ 1 := by
  rw [List.find?_eq_some_iff_append]
  constructor
  · rintro ⟨hcount, counted, rest, hsplit, hbefore⟩
    obtain ⟨before, after, hfields, rfl, hbehind⟩ := countReferences_eq_append hsplit
    exact ⟨before, after, hfields, boundOnce_iff.2 (by simpa using hbefore), hbehind,
      by simpa using hcount⟩
  · rintro ⟨before, after, rfl, once, rfl, hcount⟩
    obtain ⟨rest, hsplit⟩ := countReferences_split before f after refs
    exact ⟨by simpa using hcount, _, rest, hsplit, by simpa using boundOnce_iff.1 once⟩

theorem find?_countReferences_eq_none_iff {fields : List Field} {refs : List String} :
    (countReferences fields refs).find? (·.2 != 1) = none ↔ BoundOnce refs fields := by
  rw [boundOnce_iff, List.find?_eq_none]
  simp

/-! ## Faults -/

/-- The first reference that is none of the names. -/
def FirstUnknown (names refs : List String) (name : String) : Prop :=
  ∃ before after, refs = before ++ name :: after ∧ (∀ r ∈ before, r ∈ names) ∧ name ∉ names

theorem Method.unknownReference?_eq_some_iff {m : Method} {side : Direction} {refs : List String}
    {name : String} :
    m.unknownReference? side refs = some name ↔ FirstUnknown (m.names side) refs name := by
  have known : ∀ r, (m.field? side r).isNone = false ↔ r ∈ m.names side := by
    intro r
    rw [Option.isNone_eq_false_iff]
    exact Method.field?_isSome_iff
  have unknown : (m.field? side name).isNone = true ↔ name ∉ m.names side := by
    rw [← known, Bool.not_eq_false]
  unfold Method.unknownReference? FirstUnknown
  rw [List.find?_eq_some_iff_append]
  simp only [unknown, Bool.not_eq_true', known]
  constructor
  · rintro ⟨hname, before, after, hrefs, hbefore⟩
    exact ⟨before, after, hrefs, hbefore, hname⟩
  · rintro ⟨before, after, hrefs, hbefore, hname⟩
    exact ⟨hname, before, after, hrefs, hbefore⟩

theorem Method.unknownReference?_eq_none_iff_mem {m : Method} {side : Direction}
    {refs : List String} :
    m.unknownReference? side refs = none ↔ ∀ r ∈ refs, r ∈ m.names side := by
  rw [Method.unknownReference?_eq_none_iff]
  exact forall₂_congr fun r _ => Method.field?_isSome_iff

/-- The fault of a binding that goes before all others. -/
inductive FirstFault (b : MethodBinding) (m : Method) : BindingFault → Prop
  | unknownRequest {name : String}
      (unknown : FirstUnknown (m.names .request) b.requestReferences name) :
      FirstFault b m (.unknownField .request b.name name)
  | boundTimes {before after : List Field} {f : Field}
      (known : ∀ r ∈ b.requestReferences, r ∈ m.names .request)
      (fields : m.requestFields = before ++ f :: after)
      (once : BoundOnce b.requestReferences before)
      (count : countBehind before b.requestReferences f ≠ 1) :
      FirstFault b m (.boundTimes b.name f.name (countBehind before b.requestReferences f))
  | unknownResponse {name : String}
      (known : ∀ r ∈ b.requestReferences, r ∈ m.names .request)
      (once : BoundOnce b.requestReferences m.requestFields)
      (unknown : FirstUnknown (m.names .response) b.responseReferences name) :
      FirstFault b m (.unknownField .response b.name name)

theorem MethodBinding.firstFault_of_checkPartition {b : MethodBinding} {m : Method}
    {fault : BindingFault} (h : b.checkPartition m = .error fault) : FirstFault b m fault := by
  unfold MethodBinding.checkPartition at h
  split at h
  next name hrequest =>
    cases h
    exact .unknownRequest (Method.unknownReference?_eq_some_iff.1 hrequest)
  next hrequest =>
    have known := Method.unknownReference?_eq_none_iff_mem.1 hrequest
    split at h
    next field count hfind =>
      obtain ⟨before, after, hfields, once, rfl, hcount⟩ :=
        find?_countReferences_eq_some_iff.1 hfind
      cases h
      exact .boundTimes known hfields once hcount
    next hfind =>
      split at h
      next name hresponse =>
        cases h
        exact .unknownResponse known (find?_countReferences_eq_none_iff.1 hfind)
          (Method.unknownReference?_eq_some_iff.1 hresponse)
      next => cases h

theorem MethodBinding.checkPartition_of_firstFault {b : MethodBinding} {m : Method}
    {fault : BindingFault} (h : FirstFault b m fault) : b.checkPartition m = .error fault := by
  unfold MethodBinding.checkPartition
  cases h with
  | unknownRequest unknown => rw [Method.unknownReference?_eq_some_iff.2 unknown]
  | boundTimes known fields once count =>
    rw [Method.unknownReference?_eq_none_iff_mem.2 known,
      find?_countReferences_eq_some_iff.2 ⟨_, _, fields, once, rfl, count⟩]
  | unknownResponse known once unknown =>
    rw [Method.unknownReference?_eq_none_iff_mem.2 known,
      find?_countReferences_eq_none_iff.2 once, Method.unknownReference?_eq_some_iff.2 unknown]

/-- A binding is accepted if and only if the request fields have distinct names, its references to
request fields are these names in some order, and its references to response fields are names of
response fields. Otherwise the first fault is reported. -/
theorem MethodBinding.checkPartition_exact (b : MethodBinding) (m : Method) :
    (b.checkPartition m = .ok () ↔
      (m.names .request).Nodup ∧ b.requestReferences.Perm (m.names .request) ∧
        ∀ name ∈ b.responseReferences, name ∈ m.names .response) ∧
    ∀ fault, b.checkPartition m = .error fault ↔ FirstFault b m fault := by
  refine ⟨?_, fun fault => ⟨firstFault_of_checkPartition, checkPartition_of_firstFault⟩⟩
  rw [MethodBinding.checkPartition_eq_ok_iff]
  have known : ∀ name, (m.field? .response name).isSome ↔ name ∈ m.names .response :=
    fun name => Method.field?_isSome_iff
  simp only [known]
  rfl

-- A field whose name is taken by an earlier one is bound to nothing.
example :
    let key : Field := { name := "id", type := .string }
    let m : Method := { name := "getWidget", requestFields := [key, { key with required := true }] }
    let b : MethodBinding := { name := "getWidget", verb := .get, path := "", pathFields := ["id"] }
    b.checkPartition m = .error (.boundTimes "getWidget" "id" 0) := by
  decide

end HttpStubs.Service
