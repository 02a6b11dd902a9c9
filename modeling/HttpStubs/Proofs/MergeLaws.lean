import Mathlib.Data.List.Basic
import Mathlib.Data.List.Induction
import Mathlib.Data.List.Nodup
import HttpStubs.Proofs.ImportMerge

/-!
# Laws of merged imports

A merged declaration is its group, the declarations of its key in their order, taken over one by one
into the first of them (`mem_merge_eq`). From this come the order of the items, their distinctness
and the order of the declarations. Taking over declarations that are merged already comes to the
same as taking them over as they are (`insertAll_merge`): a declaration whose key is there commutes
with the declarations of other keys, and two declarations of one key may be joined beforehand.
-/

namespace HttpStubs.Code.Import

/-! ## First occurrences -/

section

variable {α : Type} [BEq α] [LawfulBEq α]

theorem eraseDups_concat_of_mem {xs : List α} {x : α} (h : x ∈ xs) :
    (xs ++ [x]).eraseDups = xs.eraseDups := by
  rw [List.eraseDups_append]
  simp [List.removeAll, h]

theorem eraseDups_concat_of_not_mem {xs : List α} {x : α} (h : x ∉ xs) :
    (xs ++ [x]).eraseDups = xs.eraseDups ++ [x] := by
  rw [List.eraseDups_append]
  simp [List.removeAll, h, List.eraseDups_cons]

/-- First occurrences in a longer list depend on the front only through its own. -/
theorem eraseDups_append_congr {xs ys : List α} (h : xs.eraseDups = ys.eraseDups) (more : List α) :
    (xs ++ more).eraseDups = (ys ++ more).eraseDups := by
  have hmem : ∀ x, x ∈ xs ↔ x ∈ ys := by
    intro x
    rw [← List.mem_eraseDups, h, List.mem_eraseDups]
  have hremove : more.removeAll xs = more.removeAll ys := by
    unfold List.removeAll
    apply List.filter_congr
    intro x _
    rw [Bool.eq_iff_iff]
    simp [hmem x]
  rw [List.eraseDups_append, List.eraseDups_append, h, hremove]

end

theorem eraseDups_addItem (items : List String) (item : String) :
    (addItem items item).eraseDups = (items ++ [item]).eraseDups := by
  unfold addItem
  by_cases h : item ∈ items
  · rw [if_pos (by simpa using h), eraseDups_concat_of_mem h]
  · rw [if_neg (by simpa using h)]

theorem eraseDups_foldl_addItem (items more : List String) :
    (more.foldl addItem items).eraseDups = (items ++ more).eraseDups := by
  induction more generalizing items with
  | nil => rw [List.foldl_nil, List.append_nil]
  | cons item more ih =>
    rw [List.foldl_cons, ih, eraseDups_append_congr (eraseDups_addItem items item),
      List.append_assoc, List.singleton_append]

theorem nodup_addItem {items : List String} (h : items.Nodup) (item : String) :
    (addItem items item).Nodup := by
  unfold addItem
  split_ifs with hmem
  · exact h
  · have hnot : item ∉ items := by simpa using hmem
    rw [List.nodup_append]
    refine ⟨h, List.nodup_singleton item, ?_⟩
    rintro a ha b hb rfl
    exact hnot (List.mem_singleton.1 hb ▸ ha)

theorem nodup_foldl_addItem {items : List String} (h : items.Nodup) (more : List String) :
    (more.foldl addItem items).Nodup := by
  induction more generalizing items with
  | nil => exact h
  | cons item more ih => exact ih (nodup_addItem h item)

theorem addItem_of_mem {items : List String} {item : String} (h : item ∈ items) :
    addItem items item = items :=
  if_pos (by simpa using h)

/-- Items that were added to others beforehand are added in the same order. -/
theorem foldl_addItem_foldl (items more rest : List String) :
    (rest.foldl addItem more).foldl addItem items =
      rest.foldl addItem (more.foldl addItem items) := by
  induction rest generalizing more with
  | nil => rfl
  | cons item rest ih =>
    rw [List.foldl_cons, ih, List.foldl_cons]
    congr 1
    by_cases h : item ∈ more
    · rw [addItem_of_mem h, addItem_of_mem (mem_foldl_addItem.2 (.inr h))]
    · have hadd : addItem more item = more ++ [item] := if_neg (by simpa using h)
      rw [hadd, List.foldl_append, List.foldl_cons, List.foldl_nil]

/-! ## A merged declaration -/

/-- The declarations with a key, in their order. -/
def group (imports : List Import) (k : String × Bool) : List Import :=
  imports.filter (·.key = k)

theorem group_concat_of_eq {imports : List Import} {b : Import} {k : String × Bool}
    (h : b.key = k) : group (imports ++ [b]) k = group imports k ++ [b] := by
  simp [group, h]

theorem group_concat_of_ne {imports : List Import} {b : Import} {k : String × Bool}
    (h : b.key ≠ k) : group (imports ++ [b]) k = group imports k := by
  simp [group, h]

theorem group_eq_nil {imports : List Import} {k : String × Bool} (h : k ∉ imports.map key) :
    group imports k = [] := by
  simp only [group, List.filter_eq_nil_iff, decide_eq_true_eq]
  intro x hx hkey
  exact h (List.mem_map.2 ⟨x, hx, hkey⟩)

/-- A merged declaration is the first of its group with the others taken over in order. -/
theorem mem_merge_eq {imports : List Import} {i : Import} (h : i ∈ merge imports) :
    ∃ first rest, group imports i.key = first :: rest ∧ i = rest.foldl absorb first := by
  induction imports using List.reverseRecOn generalizing i with
  | nil => cases h
  | append_singleton imports b ih =>
    rw [merge_concat] at h
    rcases mem_insert (keys_merge_nodup imports) h with ⟨h, hne⟩ | ⟨a, ha, hkey, rfl⟩ | ⟨rfl, hne⟩
    · obtain ⟨first, rest, hgroup, heq⟩ := ih h
      exact ⟨first, rest, by rw [group_concat_of_ne hne.symm, hgroup], heq⟩
    · obtain ⟨first, rest, hgroup, heq⟩ := ih ha
      refine ⟨first, rest ++ [b], ?_, ?_⟩
      · rw [key_absorb, group_concat_of_eq hkey.symm, hgroup, List.cons_append]
      · rw [List.foldl_append, ← heq]
        rfl
    · have hnew : i.key ∉ imports.map key := by
        rw [← key_mem_merge_iff]
        intro hmem
        obtain ⟨a, ha, heq⟩ := List.mem_map.1 hmem
        exact hne a ha heq
      refine ⟨i, [], ?_, rfl⟩
      rw [group_concat_of_eq rfl, group_eq_nil hnew, List.nil_append]

theorem items_foldl_absorb (first : Import) (rest : List Import) :
    (rest.foldl absorb first).items = (rest.flatMap (·.items)).foldl addItem first.items := by
  induction rest generalizing first with
  | nil => rfl
  | cons b rest ih =>
    rw [List.foldl_cons, ih, List.flatMap_cons, List.foldl_append]
    rfl

/-- The items stand in the order in which the group names them first. -/
theorem eraseDups_items_merge {imports : List Import} {i : Import} (h : i ∈ merge imports) :
    i.items.eraseDups = ((group imports i.key).flatMap (·.items)).eraseDups := by
  obtain ⟨first, rest, hgroup, heq⟩ := mem_merge_eq h
  have hitems : i.items = (rest.flatMap (·.items)).foldl addItem first.items := by
    rw [heq, items_foldl_absorb]
  rw [hgroup, hitems, eraseDups_foldl_addItem, List.flatMap_cons]

theorem nodup_items_merge {imports : List Import} {i : Import} (h : i ∈ merge imports)
    (distinct : ∀ x ∈ imports, x.key = i.key → x.items.Nodup) : i.items.Nodup := by
  obtain ⟨first, rest, hgroup, heq⟩ := mem_merge_eq h
  have hfirst : first ∈ group imports i.key := by simp [hgroup]
  obtain ⟨hmem, hkey⟩ := List.mem_filter.1 hfirst
  have hitems : i.items = (rest.flatMap (·.items)).foldl addItem first.items := by
    rw [heq, items_foldl_absorb]
  rw [hitems]
  exact nodup_foldl_addItem (distinct first hmem (of_decide_eq_true hkey)) _

/-- There is one declaration for each key, in the order in which the keys first occur. -/
theorem keys_merge (imports : List Import) :
    (merge imports).map key = (imports.map key).eraseDups := by
  induction imports using List.reverseRecOn with
  | nil => rfl
  | append_singleton imports b ih =>
    rw [merge_concat, keys_insert, List.map_append, List.map_singleton]
    by_cases h : b.key ∈ imports.map key
    · rw [if_pos (key_mem_merge_iff.2 h), eraseDups_concat_of_mem h, ih]
    · rw [if_neg (mt key_mem_merge_iff.1 h), eraseDups_concat_of_not_mem h, ih]

/-! ## Merging in parts -/

theorem absorb_absorb (a b c : Import) : (a.absorb b).absorb c = a.absorb (b.absorb c) := by
  have hitems : c.items.foldl addItem (b.items.foldl addItem a.items) =
      (c.items.foldl addItem b.items).foldl addItem a.items :=
    (foldl_addItem_foldl a.items b.items c.items).symm
  simp only [absorb, hitems, Option.or_assoc]

theorem insert_cons_of_eq {a b : Import} (h : a.key = b.key) (rest : List Import) :
    b.insert (a :: rest) = a.absorb b :: rest :=
  if_pos (sameKey_iff.2 h)

theorem insert_cons_of_ne {a b : Import} (h : a.key ≠ b.key) (rest : List Import) :
    b.insert (a :: rest) = a :: b.insert rest :=
  if_neg (mt sameKey_iff.1 h)

/-- Two declarations of one key may be joined before they are taken over. -/
theorem insert_absorb {a b : Import} (h : a.key = b.key) (imports : List Import) :
    (a.absorb b).insert imports = b.insert (a.insert imports) := by
  induction imports with
  | nil => exact (insert_cons_of_eq h []).symm
  | cons c rest ih =>
    by_cases hc : c.key = a.key
    · have hc' : c.key = (a.absorb b).key := hc
      have hcb : (c.absorb a).key = b.key := hc.trans h
      rw [insert_cons_of_eq hc, insert_cons_of_eq hc', insert_cons_of_eq hcb, absorb_absorb]
    · have hc' : c.key ≠ (a.absorb b).key := hc
      have hcb : c.key ≠ b.key := h ▸ hc
      rw [insert_cons_of_ne hc, insert_cons_of_ne hc', insert_cons_of_ne hcb, ih]

/-- A declaration whose key is there may be taken over after one of another key. -/
theorem insert_comm {a b : Import} (hne : a.key ≠ b.key) {imports : List Import}
    (hmem : b.key ∈ imports.map key) :
    a.insert (b.insert imports) = b.insert (a.insert imports) := by
  induction imports with
  | nil => cases hmem
  | cons c rest ih =>
    by_cases hcb : c.key = b.key
    · have hca : c.key ≠ a.key := fun heq => hne (heq.symm.trans hcb)
      have hca' : (c.absorb b).key ≠ a.key := hca
      rw [insert_cons_of_eq hcb, insert_cons_of_ne hca', insert_cons_of_ne hca,
        insert_cons_of_eq hcb]
    · have hrest : b.key ∈ rest.map key := by
        rw [List.map_cons, List.mem_cons] at hmem
        exact hmem.resolve_left fun heq => hcb heq.symm
      by_cases hca : c.key = a.key
      · have hcb' : (c.absorb a).key ≠ b.key := hcb
        rw [insert_cons_of_ne hcb, insert_cons_of_eq hca, insert_cons_of_eq hca,
          insert_cons_of_ne hcb']
      · rw [insert_cons_of_ne hcb, insert_cons_of_ne hca, insert_cons_of_ne hca,
          insert_cons_of_ne hcb, ih hrest]

/-- Takes declarations over one by one. -/
def insertAll (merged imports : List Import) : List Import :=
  imports.foldl (fun merged i => i.insert merged) merged

theorem insertAll_cons (merged : List Import) (a : Import) (rest : List Import) :
    insertAll merged (a :: rest) = insertAll (a.insert merged) rest :=
  rfl

theorem merge_append (xs ys : List Import) : merge (xs ++ ys) = insertAll (merge xs) ys :=
  List.foldl_append

theorem insertAll_insert_comm {b : Import} {imports : List Import}
    (hne : b.key ∉ imports.map key) {merged : List Import} (hmem : b.key ∈ merged.map key) :
    insertAll (b.insert merged) imports = b.insert (insertAll merged imports) := by
  induction imports generalizing merged with
  | nil => rfl
  | cons a rest ih =>
    rw [List.map_cons, List.mem_cons, not_or] at hne
    have hmem' : b.key ∈ (a.insert merged).map key := by
      rw [keys_insert]
      split_ifs
      · exact hmem
      · exact List.mem_append_left _ hmem
    have hcomm := insert_comm (fun heq => hne.1 heq.symm) hmem
    rw [insertAll_cons, insertAll_cons, hcomm, ih hne.2 hmem']

/-- Taking over declarations into which `b` was merged: as if `b` came after them. -/
theorem insertAll_insert {b : Import} {imports : List Import}
    (distinct : (imports.map key).Nodup) (merged : List Import) :
    insertAll merged (b.insert imports) = b.insert (insertAll merged imports) := by
  induction imports generalizing merged with
  | nil => rfl
  | cons a rest ih =>
    rw [List.map_cons, List.nodup_cons] at distinct
    by_cases hsame : a.key = b.key
    · -- `b` has joined `a`, and no later declaration has their key.
      have hmem : b.key ∈ (a.insert merged).map key := by
        rw [keys_insert, ← hsame]
        split_ifs with h
        · exact h
        · simp
      rw [insert_cons_of_eq hsame, insertAll_cons, insertAll_cons, insert_absorb hsame]
      exact insertAll_insert_comm (hsame ▸ distinct.1) hmem
    · rw [insert_cons_of_ne hsame, insertAll_cons, insertAll_cons, ih distinct.2]

/-- Merged declarations are taken over as those they were merged from. -/
theorem insertAll_merge (merged imports : List Import) :
    insertAll merged (merge imports) = insertAll merged imports := by
  induction imports using List.reverseRecOn with
  | nil => rfl
  | append_singleton imports b ih =>
    rw [merge_concat, insertAll_insert (keys_merge_nodup imports), ih]
    simp [insertAll]

theorem merge_merge (imports : List Import) : merge (merge imports) = merge imports :=
  insertAll_merge [] imports

/-- Merging loses and reorders nothing. The merged declarations have the keys that occur, in the
order of first occurrence. Each has the items of its group, in the order in which they are first
named, without repetition if no declaration of the group repeats one, and the first default of the
group. Parts of the list may be merged beforehand. -/
theorem merge_lossless (xs ys : List Import) :
    (merge xs).map key = (xs.map key).eraseDups ∧
      (∀ i ∈ merge xs,
        (∀ name, name ∈ i.items ↔ ∃ x ∈ xs, x.key = i.key ∧ name ∈ x.items) ∧
          i.items.eraseDups = ((group xs i.key).flatMap (·.items)).eraseDups ∧
          ((∀ x ∈ xs, x.key = i.key → x.items.Nodup) → i.items.Nodup) ∧
          i.default? = (group xs i.key).findSome? (·.default?)) ∧
      merge (merge xs) = merge xs ∧
      merge (merge xs ++ ys) = merge (xs ++ ys) ∧
      merge (xs ++ merge ys) = merge (xs ++ ys) := by
  refine ⟨keys_merge xs, fun i hi => ?_, merge_merge xs, ?_, ?_⟩
  · exact ⟨mem_items_merge hi, eraseDups_items_merge hi, nodup_items_merge hi, default_merge hi⟩
  · rw [merge_append, merge_append, merge_merge]
  · rw [merge_append, merge_append, insertAll_merge]

/-- Declarations of two modules in turn. -/
def interleaved : List Import :=
  [⟨none, ["IShelf", "IBook"], "./types", true⟩, ⟨some "express", ["Router"], "express", false⟩,
    ⟨some "Types", ["IBook", "IReader"], "./types", true⟩, ⟨some "app", [], "express", false⟩]

theorem merge_lossless_interleaved :
    ⟨some "Types", ["IShelf", "IBook", "IReader"], "./types", true⟩ ∈ merge interleaved ∧
      (∀ x ∈ interleaved, x.key = ("./types", true) → x.items.Nodup) ∧
      ["IShelf", "IBook", "IReader"].Nodup ∧
      (merge interleaved).map key = [("./types", true), ("express", false)] := by
  have hmem : ⟨some "Types", ["IShelf", "IBook", "IReader"], "./types", true⟩ ∈
      merge interleaved := by
    decide
  have hdistinct : ∀ x ∈ interleaved, x.key = ("./types", true) → x.items.Nodup := by decide
  obtain ⟨hkeys, hgroups, -⟩ := merge_lossless interleaved []
  obtain ⟨-, -, hnodup, -⟩ := hgroups _ hmem
  exact ⟨hmem, hdistinct, hnodup hdistinct, hkeys.trans (by decide)⟩

end HttpStubs.Code.Import
