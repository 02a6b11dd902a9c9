import Mathlib.Data.List.Basic
import Mathlib.Data.List.Induction
import Mathlib.Data.List.Nodup
import HttpStubs.Code.Import

/-!
# Merged imports

`Import.merge` gives one declaration for each module and kind of import that occurs (`key`). Its
items are those of all the declarations with that key, and its default is the first of theirs.
-/

namespace HttpStubs.Code.Import

/-- The module and the kind of a declaration. -/
def key (i : Import) : String × Bool :=
  (i.source, i.typeOnly)

theorem sameKey_iff {a b : Import} : a.sameKey b ↔ a.key = b.key := by
  simp [sameKey, key]

theorem key_absorb (a b : Import) : (a.absorb b).key = a.key :=
  rfl

theorem mem_foldl_addItem {items more : List String} {name : String} :
    name ∈ more.foldl addItem items ↔ name ∈ items ∨ name ∈ more := by
  induction more generalizing items with
  | nil => simp
  | cons item more ih =>
    have hadd : name ∈ addItem items item ↔ name ∈ items ∨ name = item := by
      unfold addItem
      split_ifs with h
      · have hmem : item ∈ items := by simpa using h
        exact ⟨.inl, fun hname => hname.elim id fun heq => heq ▸ hmem⟩
      · simp
    rw [List.foldl_cons, ih, hadd, List.mem_cons, or_assoc]

/-! ## One insertion -/

theorem keys_insert (b : Import) (imports : List Import) :
    (b.insert imports).map key =
      if b.key ∈ imports.map key then imports.map key else imports.map key ++ [b.key] := by
  induction imports with
  | nil => rfl
  | cons a rest ih =>
    unfold insert
    split_ifs with hsame hmem hmem
    · rw [List.map_cons, List.map_cons, key_absorb]
    · exact absurd (List.mem_cons.2 (.inl (sameKey_iff.1 hsame).symm)) hmem
    · have hrest : b.key ∈ rest.map key := by
        rcases List.mem_cons.1 hmem with heq | hmem
        · exact absurd (sameKey_iff.2 heq.symm) hsame
        · exact hmem
      rw [List.map_cons, ih, if_pos hrest, List.map_cons]
    · have hrest : b.key ∉ rest.map key := fun h => hmem (List.mem_cons_of_mem _ h)
      rw [List.map_cons, ih, if_neg hrest, List.map_cons, List.cons_append]

theorem keys_insert_nodup {b : Import} {imports : List Import} (h : (imports.map key).Nodup) :
    ((b.insert imports).map key).Nodup := by
  rw [keys_insert]
  split_ifs with hmem
  · exact h
  · exact List.nodup_append.2 ⟨h, List.nodup_singleton _, by simp_all⟩

/-- A declaration after an insertion: one with another key, the one that took `b` over, or `b`. -/
theorem mem_insert {b i : Import} {imports : List Import} (distinct : (imports.map key).Nodup)
    (h : i ∈ b.insert imports) :
    (i ∈ imports ∧ i.key ≠ b.key) ∨ (∃ a ∈ imports, a.key = b.key ∧ i = a.absorb b) ∨
      (i = b ∧ ∀ a ∈ imports, a.key ≠ b.key) := by
  induction imports with
  | nil => exact .inr (.inr ⟨by simpa [insert] using h, by simp⟩)
  | cons a rest ih =>
    rw [List.map_cons, List.nodup_cons] at distinct
    unfold insert at h
    split_ifs at h with hsame
    · rw [sameKey_iff] at hsame
      rcases List.mem_cons.1 h with rfl | h
      · exact .inr (.inl ⟨a, List.mem_cons_self, hsame, rfl⟩)
      · refine .inl ⟨List.mem_cons_of_mem a h, fun heq => distinct.1 ?_⟩
        rw [hsame, ← heq]
        exact List.mem_map_of_mem h
    · rw [sameKey_iff] at hsame
      rcases List.mem_cons.1 h with rfl | h
      · exact .inl ⟨List.mem_cons_self, hsame⟩
      · rcases ih distinct.2 h with ⟨h, hne⟩ | ⟨a', ha', hkey, rfl⟩ | ⟨rfl, hne⟩
        · exact .inl ⟨List.mem_cons_of_mem a h, hne⟩
        · exact .inr (.inl ⟨a', List.mem_cons_of_mem a ha', hkey, rfl⟩)
        · exact .inr (.inr ⟨rfl, List.forall_mem_cons.2 ⟨hsame, hne⟩⟩)

/-! ## All insertions -/

theorem merge_concat (imports : List Import) (b : Import) :
    merge (imports ++ [b]) = b.insert (merge imports) := by
  simp [merge]

theorem keys_merge_nodup (imports : List Import) : ((merge imports).map key).Nodup := by
  induction imports using List.reverseRecOn with
  | nil => exact List.nodup_nil
  | append_singleton imports b ih =>
    rw [merge_concat]
    exact keys_insert_nodup ih

theorem key_mem_merge_iff {imports : List Import} {k : String × Bool} :
    k ∈ (merge imports).map key ↔ k ∈ imports.map key := by
  induction imports using List.reverseRecOn with
  | nil => rfl
  | append_singleton imports b ih =>
    rw [merge_concat, keys_insert, List.map_append, List.mem_append]
    split_ifs with hmem
    · rw [← ih, List.map_cons, List.map_nil, List.mem_singleton]
      exact ⟨.inl, fun h => h.elim id fun heq => heq ▸ hmem⟩
    · rw [List.mem_append, ih]
      rfl

theorem mem_items_merge {imports : List Import} {i : Import} (h : i ∈ merge imports)
    (name : String) : name ∈ i.items ↔ ∃ x ∈ imports, x.key = i.key ∧ name ∈ x.items := by
  induction imports using List.reverseRecOn generalizing i with
  | nil => cases h
  | append_singleton imports b ih =>
    rw [merge_concat] at h
    simp only [List.mem_append, List.mem_singleton, or_and_right, exists_or, exists_eq_left]
    rcases mem_insert (keys_merge_nodup imports) h with ⟨h, hne⟩ | ⟨a, ha, hkey, rfl⟩ | ⟨rfl, hne⟩
    · rw [ih h]
      simp [hne.symm]
    · have hitems : name ∈ (a.absorb b).items ↔ name ∈ a.items ∨ name ∈ b.items :=
        mem_foldl_addItem
      rw [hitems, ih ha, key_absorb]
      simp [hkey]
    · have hnone : ¬∃ x ∈ imports, x.key = i.key ∧ name ∈ x.items := by
        rintro ⟨x, hx, hkey, -⟩
        obtain ⟨a, ha, heq⟩ := List.mem_map.1 (key_mem_merge_iff.2 (List.mem_map_of_mem hx))
        exact hne a ha (heq.trans hkey)
      simp [hnone]

theorem default_merge {imports : List Import} {i : Import} (h : i ∈ merge imports) :
    i.default? = (imports.filter (·.key = i.key)).findSome? (·.default?) := by
  induction imports using List.reverseRecOn generalizing i with
  | nil => cases h
  | append_singleton imports b ih =>
    rw [merge_concat] at h
    rw [List.filter_append, List.findSome?_append]
    rcases mem_insert (keys_merge_nodup imports) h with ⟨h, hne⟩ | ⟨a, ha, hkey, rfl⟩ | ⟨rfl, hne⟩
    · rw [ih h]
      simp [hne.symm]
    · rw [key_absorb, ← ih ha]
      simp [absorb, hkey]
    · have hnone : imports.filter (·.key = i.key) = [] := by
        simp only [List.filter_eq_nil_iff, decide_eq_true_eq]
        intro x hx hkey
        obtain ⟨a, ha, heq⟩ := List.mem_map.1 (key_mem_merge_iff.2 (List.mem_map_of_mem hx))
        exact hne a ha (heq.trans hkey)
      simp [hnone]

/-! ## Bound names -/

/-- A name that an import declaration binds. -/
structure Bound where
  /-- The key of the declaration. -/
  key : String × Bool
  /-- Whether the name is bound to the default export. -/
  asDefault : Bool
  name : String
  deriving DecidableEq, Repr

/-- The names that a declaration binds. -/
def bound (i : Import) : List Bound :=
  i.default?.toList.map (⟨i.key, true, ·⟩) ++ i.items.map (⟨i.key, false, ·⟩)

theorem default_mem_bound {i : Import} {k : String × Bool} {name : String} :
    ⟨k, true, name⟩ ∈ i.bound ↔ i.key = k ∧ i.default? = some name := by
  simp [bound, and_comm]

theorem item_mem_bound {i : Import} {k : String × Bool} {name : String} :
    ⟨k, false, name⟩ ∈ i.bound ↔ i.key = k ∧ name ∈ i.items := by
  simp [bound, and_comm]

/-- Where every default export has the same name, merging keeps the bound names. -/
theorem mem_bound_merge {imports : List Import} (only : String)
    (same : ∀ i ∈ imports, ∀ name, i.default? = some name → name = only) (b : Bound) :
    b ∈ (merge imports).flatMap bound ↔ b ∈ imports.flatMap bound := by
  obtain ⟨k, asDefault, name⟩ := b
  have hmerged : ∀ x ∈ imports, ∃ i ∈ merge imports, i.key = x.key := by
    intro x hx
    exact List.mem_map.1 (key_mem_merge_iff.2 (List.mem_map_of_mem hx))
  simp only [List.mem_flatMap]
  cases asDefault with
  | false =>
    simp only [item_mem_bound]
    constructor
    · rintro ⟨i, hi, rfl, hname⟩
      obtain ⟨x, hx, hkey, hname⟩ := (mem_items_merge hi name).1 hname
      exact ⟨x, hx, hkey, hname⟩
    · rintro ⟨x, hx, rfl, hname⟩
      obtain ⟨i, hi, hkey⟩ := hmerged x hx
      exact ⟨i, hi, hkey, (mem_items_merge hi name).2 ⟨x, hx, hkey.symm, hname⟩⟩
  | true =>
    simp only [default_mem_bound]
    constructor
    · rintro ⟨i, hi, rfl, hname⟩
      rw [default_merge hi] at hname
      obtain ⟨x, hx, hname⟩ := List.exists_of_findSome?_eq_some hname
      obtain ⟨hx, hkey⟩ := List.mem_filter.1 hx
      exact ⟨x, hx, of_decide_eq_true hkey, hname⟩
    · -- The merged default is the first one with the key, which has the same name as that of `x`.
      rintro ⟨x, hx, rfl, hname⟩
      obtain ⟨i, hi, hkey⟩ := hmerged x hx
      refine ⟨i, hi, hkey, ?_⟩
      have hfilter : x ∈ imports.filter (·.key = i.key) :=
        List.mem_filter.2 ⟨hx, decide_eq_true hkey.symm⟩
      have hsome : ((imports.filter (·.key = i.key)).findSome? (·.default?)).isSome := by
        rw [List.findSome?_isSome_iff]
        exact ⟨x, hfilter, by simp [hname]⟩
      obtain ⟨first, hfirst⟩ := Option.isSome_iff_exists.1 hsome
      obtain ⟨y, hy, hdefault⟩ := List.exists_of_findSome?_eq_some hfirst
      rw [default_merge hi, hfirst, same y (List.mem_filter.1 hy).1 first hdefault,
        same x hx name hname]

end HttpStubs.Code.Import
