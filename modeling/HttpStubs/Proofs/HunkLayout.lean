import Mathlib.Data.List.Basic
import Mathlib.Data.List.Chain
import HttpStubs.Diff.Unified
import HttpStubs.Proofs.ShortestScripts

/-!
# How a script is cut into hunks

The hunks of a script hold all its changes, with three equal lines of context around them; the equal
lines left out lie between the hunks (`cuts_hunks`). `Cuts` says this hunk by hunk, with the number
of lines before each hunk on either side. What a hunk looks like inside is said by `Framed`: changes
with at most six equal lines between them, deletions before insertions, and less context only at the
start or at the end of the text.
-/

namespace HttpStubs.Diff

/-! ## The two sides of a script -/

/-- The side before the changes, or that after them. -/
inductive Side where
  | old
  | new
  deriving DecidableEq, Repr

/-- What belongs to a side. -/
def Side.pick {α : Type} (old new : α) : Side → α
  | .old => old
  | .new => new

/-- The line of an edit on a side, if it has one there. -/
def Edit.on : Side → Edit → Option String
  | _, .keep line => some line
  | .old, .delete line => some line
  | .new, .delete _ => none
  | .old, .insert _ => none
  | .new, .insert line => some line

/-- The lines of a script on a side. -/
def linesOn (side : Side) (edits : List Edit) : List String :=
  edits.filterMap (Edit.on side)

@[simp] theorem linesOn_nil (side : Side) : linesOn side [] = [] :=
  rfl

@[simp] theorem linesOn_append (side : Side) (edits more : List Edit) :
    linesOn side (edits ++ more) = linesOn side edits ++ linesOn side more :=
  List.filterMap_append

@[simp] theorem linesOn_map_keep (side : Side) (lines : List String) :
    linesOn side (lines.map .keep) = lines := by
  have hkeep : Edit.on side ∘ Edit.keep = some := by
    funext line
    cases side <;> rfl
  rw [linesOn, List.filterMap_map, hkeep, List.filterMap_some]

theorem Leads.linesOn_eq {edits : List Edit} {old new : List String} (h : Leads edits old new)
    (side : Side) : linesOn side edits = side.pick old new := by
  induction h with
  | nil => cases side <;> rfl
  | keep line _ ih => cases side <;> exact congrArg (line :: ·) ih
  | delete line _ ih =>
    cases side with
    | old => exact congrArg (line :: ·) ih
    | new => exact ih
  | insert line _ ih =>
    cases side with
    | old => exact ih
    | new => exact congrArg (line :: ·) ih

/-! ## Blocks -/

/-- The edits of a block; in a change, deletions come first. -/
def Block.edits : Block → List Edit
  | .same lines => lines.map .keep
  | .change deleted inserted => deleted.map .delete ++ inserted.map .insert

/-- The lines of a block on a side. -/
def Block.on : Side → Block → List String
  | _, .same lines => lines
  | side, .change deleted inserted => side.pick deleted inserted

/-- The edits of blocks. -/
def editsOf (blocks : List Block) : List Edit :=
  blocks.flatMap Block.edits

@[simp] theorem editsOf_cons (block : Block) (blocks : List Block) :
    editsOf (block :: blocks) = block.edits ++ editsOf blocks :=
  rfl

@[simp] theorem linesOn_edits (side : Side) (block : Block) :
    linesOn side block.edits = block.on side := by
  cases block with
  | same lines => exact linesOn_map_keep side lines
  | change deleted inserted =>
    have hdeleted : linesOn side (deleted.map .delete) = side.pick deleted [] := by
      induction deleted with
      | nil => cases side <;> rfl
      | cons line lines ih =>
        cases side with
        | old => exact congrArg (line :: ·) ih
        | new => exact ih
    have hinserted : linesOn side (inserted.map .insert) = side.pick [] inserted := by
      induction inserted with
      | nil => cases side <;> rfl
      | cons line lines ih =>
        cases side with
        | old => exact ih
        | new => exact congrArg (line :: ·) ih
    rw [Block.edits, linesOn_append, hdeleted, hinserted]
    cases side with
    | old => exact List.append_nil deleted
    | new => exact List.nil_append inserted

theorem changeCount_edits (deleted inserted : List String) :
    changeCount (Block.change deleted inserted).edits = deleted.length + inserted.length := by
  have hdeleted : changeCount (deleted.map .delete) = deleted.length := by
    induction deleted with
    | nil => rfl
    | cons line lines ih => rw [List.map_cons, changeCount_delete, ih, List.length_cons]
  have hinserted : changeCount (inserted.map .insert) = inserted.length := by
    induction inserted with
    | nil => rfl
    | cons line lines ih => rw [List.map_cons, changeCount_insert, ih, List.length_cons]
  rw [Block.edits, changeCount_append, hdeleted, hinserted]

/-- Two scripts with the same lines on either side and as many changes. -/
structure Alike (edits edits' : List Edit) : Prop where
  lines_eq : ∀ side, linesOn side edits = linesOn side edits'
  count_eq : changeCount edits = changeCount edits'

theorem Alike.trans {a b c : List Edit} (h : Alike a b) (h' : Alike b c) : Alike a c :=
  ⟨fun side => (h.lines_eq side).trans (h'.lines_eq side), h.count_eq.trans h'.count_eq⟩

theorem Alike.cons {edits edits' : List Edit} (h : Alike edits edits') (edit : Edit) :
    Alike (edit :: edits) (edit :: edits') := by
  have hlines : ∀ side, linesOn side (edit :: edits) = linesOn side [edit] ++ linesOn side edits :=
    fun side => linesOn_append side [edit] edits
  have hlines' : ∀ side,
      linesOn side (edit :: edits') = linesOn side [edit] ++ linesOn side edits' :=
    fun side => linesOn_append side [edit] edits'
  refine ⟨fun side => by rw [hlines, hlines', h.lines_eq], ?_⟩
  have hcount := changeCount_append [edit] edits
  have hcount' := changeCount_append [edit] edits'
  have heq := h.count_eq
  simp only [List.singleton_append] at hcount hcount'
  omega

/-- An edit in front of blocks; an insertion moves behind the deletions of its change. -/
theorem alike_addEdit (edit : Edit) (blocks : List Block) :
    Alike (editsOf (addEdit edit blocks)) (edit :: editsOf blocks) := by
  fun_cases addEdit edit blocks with
  | case1 | case2 | case3 | case4 | case6 => exact ⟨fun _ => rfl, rfl⟩
  | case5 line deleted inserted blocks =>
    refine ⟨fun side => ?_, ?_⟩
    · change linesOn side (editsOf _) = linesOn side ([.insert line] ++ editsOf _)
      rw [linesOn_append, editsOf_cons, editsOf_cons, linesOn_append, linesOn_append,
        linesOn_edits, linesOn_edits]
      cases side <;> rfl
    · rw [changeCount_insert, editsOf_cons, editsOf_cons, changeCount_append, changeCount_append,
        changeCount_edits, changeCount_edits, List.length_cons]
      omega

theorem alike_blocks (edits : List Edit) : Alike (editsOf (blocks edits)) edits := by
  induction edits with
  | nil => exact ⟨fun _ => rfl, rfl⟩
  | cons edit edits ih => exact (alike_addEdit edit (blocks edits)).trans (ih.cons edit)

/-- Whether a block is a change. -/
def Block.isChange : Block → Bool
  | .same _ => false
  | .change _ _ => true

/-- The block holds a line. -/
def Block.IsProper : Block → Prop
  | .same lines => lines ≠ []
  | .change deleted inserted => deleted ≠ [] ∨ inserted ≠ []

/-- Equal lines and changes in turn, none of them empty. -/
structure Alternating (blocks : List Block) : Prop where
  proper : ∀ block ∈ blocks, block.IsProper
  turns : blocks.IsChain fun a b => a.isChange ≠ b.isChange

theorem Alternating.tail {block : Block} {blocks : List Block}
    (h : Alternating (block :: blocks)) : Alternating blocks :=
  ⟨fun b hb => h.proper b (List.mem_cons_of_mem block hb), (List.isChain_cons.1 h.turns).2⟩

theorem Alternating.cons {block : Block} {blocks : List Block} (h : Alternating blocks)
    (hproper : block.IsProper) (hturn : ∀ b ∈ blocks.head?, block.isChange ≠ b.isChange) :
    Alternating (block :: blocks) :=
  ⟨List.forall_mem_cons.2 ⟨hproper, h.proper⟩, List.isChain_cons.2 ⟨hturn, h.turns⟩⟩

/-- A longer block of the same kind in the place of the first. -/
theorem Alternating.replace {block longer : Block} {blocks : List Block}
    (h : Alternating (block :: blocks)) (hproper : longer.IsProper)
    (hsame : longer.isChange = block.isChange) : Alternating (longer :: blocks) :=
  h.tail.cons hproper fun b hb => hsame ▸ (List.isChain_cons.1 h.turns).1 b hb

theorem alternating_addEdit (edit : Edit) {blocks : List Block} (h : Alternating blocks) :
    Alternating (addEdit edit blocks) := by
  fun_cases addEdit edit blocks with
  | case1 line lines blocks => exact h.replace (List.cons_ne_nil _ _) rfl
  | case3 line deleted inserted blocks => exact h.replace (.inl (List.cons_ne_nil _ _)) rfl
  | case5 line deleted inserted blocks => exact h.replace (.inr (List.cons_ne_nil _ _)) rfl
  | case2 line blocks hnot =>
    refine h.cons (List.cons_ne_nil _ _) fun b hb => ?_
    cases b with
    | change deleted inserted => simp [Block.isChange]
    | same lines =>
      obtain ⟨rest, rfl⟩ := List.head?_eq_some_iff.1 hb
      exact absurd rfl (hnot lines rest)
  | case4 line blocks hnot =>
    refine h.cons (.inl (List.cons_ne_nil _ _)) fun b hb => ?_
    cases b with
    | same lines => simp [Block.isChange]
    | change deleted inserted =>
      obtain ⟨rest, rfl⟩ := List.head?_eq_some_iff.1 hb
      exact absurd rfl (hnot deleted inserted rest)
  | case6 line blocks hnot =>
    refine h.cons (.inr (List.cons_ne_nil _ _)) fun b hb => ?_
    cases b with
    | same lines => simp [Block.isChange]
    | change deleted inserted =>
      obtain ⟨rest, rfl⟩ := List.head?_eq_some_iff.1 hb
      exact absurd rfl (hnot deleted inserted rest)

theorem alternating_blocks (edits : List Edit) : Alternating (blocks edits) := by
  induction edits with
  | nil => exact ⟨by simp [blocks], List.isChain_nil⟩
  | cons edit edits ih => exact alternating_addEdit edit ih

/-! ## Hunks -/

/-- The edits of a hunk. -/
def Hunk.edits (h : Hunk) : List Edit :=
  editsOf h.blocks

/-- The number of lines before a hunk on a side. -/
def Hunk.start (h : Hunk) (side : Side) : ℕ :=
  side.pick h.oldStart h.newStart

/-- The number of lines before the end of a hunk on a side. -/
def Hunk.finish (h : Hunk) (side : Side) : ℕ :=
  h.start side + (linesOn side h.edits).length

@[simp] theorem Hunk.edits_add (h : Hunk) (block : Block) :
    (h.add block).edits = h.edits ++ block.edits := by
  simp [edits, add, editsOf]

@[simp] theorem Hunk.start_add (h : Hunk) (block : Block) (side : Side) :
    (h.add block).start side = h.start side :=
  rfl

theorem Hunk.finish_add (h : Hunk) (block : Block) (side : Side) :
    (h.add block).finish side = h.finish side + (block.on side).length := by
  simp [finish, Nat.add_assoc]

/-- Changes with equal lines between them, at most twice the radius in one place. -/
inductive Changes : List Edit → Prop
  | one {deleted inserted : List String} :
    (Block.change deleted inserted).IsProper → Changes (Block.change deleted inserted).edits
  | more {edits : List Edit} {lines deleted inserted : List String} :
    Changes edits → lines ≠ [] → lines.length ≤ 2 * radius →
    (Block.change deleted inserted).IsProper →
    Changes (edits ++ lines.map .keep ++ (Block.change deleted inserted).edits)

/-- Changes below equal lines, which are as many as the radius, or fewer where `atStart` holds. -/
def Headed (atStart : Prop) (edits : List Edit) : Prop :=
  ∃ (before : List String) (changes : List Edit),
    edits = before.map .keep ++ changes ∧ Changes changes ∧
      before.length ≤ radius ∧ (before.length < radius → atStart)

/-- Changes between equal lines, which are as many as the radius on either side, or fewer where
`atStart` or `atEnd` hold. -/
def Framed (atStart atEnd : Prop) (edits : List Edit) : Prop :=
  ∃ (headed : List Edit) (after : List String),
    edits = headed ++ after.map .keep ∧ Headed atStart headed ∧
      after.length ≤ radius ∧ (after.length < radius → atEnd)

/-- The hunks of edits, after so many lines on each side. Equal lines stand before each hunk, at
least one if it is not the first, and behind the last. -/
inductive Cuts : Bool → (Side → ℕ) → List Hunk → List Edit → Prop
  | nil {first : Bool} {passed : Side → ℕ} (lines : List String) :
    Cuts first passed [] (lines.map .keep)
  | cons {first : Bool} {passed : Side → ℕ} (gap : List String) (h : Hunk) {hs : List Hunk}
    {rest : List Edit} :
    (first = false → gap ≠ []) → (∀ side, h.start side = passed side + gap.length) →
    Framed (∀ side, h.start side = 0) (rest = []) h.edits → Cuts false h.finish hs rest →
    Cuts first passed (h :: hs) (gap.map .keep ++ h.edits ++ rest)

/-- Equal lines in front of edits that are cut into hunks. -/
theorem Cuts.prepend {first first' : Bool} {passed passed' : Side → ℕ} {hs : List Hunk}
    {edits : List Edit} (h : Cuts first passed hs edits) (gap : List String)
    (hfirst : first' = false → gap ≠ [])
    (hpassed : ∀ side, passed side = passed' side + gap.length) :
    Cuts first' passed' hs (gap.map .keep ++ edits) := by
  cases h with
  | nil lines =>
    rw [← List.map_append]
    exact .nil (gap ++ lines)
  | cons gap' h _ hstart hframed hrest =>
    rw [List.append_assoc (gap'.map _), ← List.append_assoc, ← List.map_append,
      ← List.append_assoc]
    refine .cons (gap ++ gap') h (fun hlater => ?_) (fun side => ?_) hframed hrest
    · simp [hfirst hlater]
    · rw [hstart, hpassed, List.length_append, Nat.add_assoc]

/-- A hunk that waits for a change: with one it has the context that it needs. -/
def Hunk.Ready (h : Hunk) : Prop :=
  ∀ deleted inserted, (Block.change deleted inserted).IsProper →
    Headed (∀ side, h.start side = 0) (h.add (.change deleted inserted)).edits

/-- A hunk that ends with a change. -/
def Hunk.Filled (h : Hunk) : Prop :=
  Headed (∀ side, h.start side = 0) h.edits

theorem Hunk.ready_begin (oldStart newStart : ℕ) (lines : List String)
    (hstart : lines.length < radius → oldStart = 0 ∧ newStart = 0) :
    (Hunk.begin oldStart newStart lines).Ready := by
  intro deleted inserted hproper
  refine ⟨lines.drop (lines.length - radius), _, ?_, .one hproper, ?_, fun hfew side => ?_⟩
  · simp [edits, add, begin, editsOf, Block.edits]
  · rw [List.length_drop]
    omega
  · rw [List.length_drop] at hfew
    obtain ⟨rfl, rfl⟩ := hstart (by omega)
    have hskipped : lines.length - radius = 0 := by omega
    cases side <;> simp [start, begin, Side.pick, hskipped]

theorem Hunk.Filled.ready_add {h : Hunk} (hfilled : h.Filled) {lines : List String}
    (hne : lines ≠ []) (hfew : lines.length ≤ 2 * radius) : (h.add (.same lines)).Ready := by
  intro deleted inserted hproper
  obtain ⟨before, changes, hedits, hchanges, hcontext, hstart⟩ := hfilled
  refine ⟨before, _, ?_, hchanges.more hne hfew hproper, hcontext, hstart⟩
  simp [hedits, Block.edits]

theorem Hunk.Filled.framed_add {h : Hunk} (hfilled : h.Filled) {lines : List String} {atEnd : Prop}
    (hend : lines.length < radius → atEnd) :
    Framed (∀ side, h.start side = 0) atEnd (h.add (.same (lines.take radius))).edits := by
  refine ⟨h.edits, lines.take radius, h.edits_add _, hfilled, ?_, fun hfew => hend ?_⟩
  · rw [List.length_take]
    omega
  · rw [List.length_take] at hfew
    omega

/-! ## Filling hunks -/

/-- The hunk that is being filled after so many lines on each side, or an empty one. -/
def opened (oldStart newStart : ℕ) (current : Option Hunk) : Hunk :=
  current.getD ⟨oldStart, newStart, []⟩

/-- Whether blocks begin with a change. -/
def beginsWithChange (blocks : List Block) : Bool :=
  blocks.head?.any Block.isChange

/-- The hunk that is being filled ends where the blocks begin. It ends with a change if they do not
begin with one, and waits for a change if they do. None is being filled only at the start. -/
structure Fits (oldStart newStart : ℕ) (current : Option Hunk) (blocks : List Block) : Prop where
  finish_eq : ∀ side, (opened oldStart newStart current).finish side = side.pick oldStart newStart
  start : current = none → oldStart = 0 ∧ newStart = 0
  filled : beginsWithChange blocks = false → ∀ h, current = some h → h.Filled
  ready : beginsWithChange blocks = true → ∀ h, current = some h → h.Ready

theorem ready_opened {current : Option Hunk} {oldStart newStart : ℕ} {blocks : List Block}
    (h : Fits oldStart newStart current blocks) (hchange : beginsWithChange blocks = true) :
    (opened oldStart newStart current).Ready := by
  cases current with
  | some current => exact h.ready hchange current rfl
  | none =>
    obtain ⟨rfl, rfl⟩ := h.start rfl
    intro deleted inserted hproper
    refine ⟨[], _, ?_, .one hproper, Nat.zero_le _, fun _ side => ?_⟩
    · simp [opened, Hunk.edits, Hunk.add, editsOf]
    · cases side <;> rfl

theorem Alternating.change_tail {deleted inserted : List String} {rest : List Block}
    (h : Alternating (.change deleted inserted :: rest)) : beginsWithChange rest = false := by
  cases rest with
  | nil => rfl
  | cons block rest =>
    have hturn := (List.isChain_cons_cons.1 h.turns).1
    simpa [beginsWithChange, Block.isChange] using hturn

theorem Alternating.same_tail {lines : List String} {rest : List Block}
    (h : Alternating (.same lines :: rest)) (hne : rest ≠ []) : beginsWithChange rest = true := by
  obtain ⟨block, rest, rfl⟩ := List.exists_cons_of_ne_nil hne
  have hturn := (List.isChain_cons_cons.1 h.turns).1
  simpa [beginsWithChange, Block.isChange] using hturn

/-- A hunk that begins right here. -/
theorem Cuts.first {h : Hunk} {hs : List Hunk} {rest : List Edit}
    (hframed : Framed (∀ side, h.start side = 0) (rest = []) h.edits)
    (hrest : Cuts false h.finish hs rest) : Cuts true h.start (h :: hs) (h.edits ++ rest) :=
  .cons [] h (fun hlater => by cases hlater) (fun _ => rfl) hframed hrest

section

variable (oldStart newStart : ℕ) (lines : List String)

theorem Hunk.edits_begin : (Hunk.begin oldStart newStart lines).edits =
    (lines.drop (lines.length - radius)).map .keep := by
  simp [edits, begin, editsOf, Block.edits]

theorem Hunk.start_begin (side : Side) : (Hunk.begin oldStart newStart lines).start side =
    side.pick oldStart newStart + (lines.length - radius) := by
  cases side <;> rfl

theorem Hunk.finish_begin (side : Side) : (Hunk.begin oldStart newStart lines).finish side =
    side.pick oldStart newStart + lines.length := by
  rw [finish, start_begin, edits_begin, linesOn_map_keep, List.length_drop]
  omega

end

/-- Before a hunk that begins with the last of some equal lines, the others are left out, except for
those that the hunk before it has shown. -/
theorem Cuts.leave_out {oldStart newStart : ℕ} {lines : List String} {hs : List Hunk}
    {more : List Edit} (h : Cuts true (Hunk.begin oldStart newStart lines).start hs
      ((Hunk.begin oldStart newStart lines).edits ++ more))
    {first : Bool} {passed : Side → ℕ} {shown : ℕ} (hshown : shown ≤ lines.length - radius)
    (hfirst : first = false → shown < lines.length - radius)
    (hpassed : ∀ side, passed side = side.pick oldStart newStart + shown) :
    Cuts first passed hs ((lines.drop shown).map .keep ++ more) := by
  have hsplit : (lines.drop shown).take (lines.length - radius - shown) ++
      lines.drop (lines.length - radius) = lines.drop shown := by
    have hdrop : lines.drop (lines.length - radius) =
        (lines.drop shown).drop (lines.length - radius - shown) := by
      rw [List.drop_drop]
      congr 1
      omega
    rw [hdrop, List.take_append_drop]
  have hlength : ((lines.drop shown).take (lines.length - radius - shown)).length =
      lines.length - radius - shown := by
    rw [List.length_take, List.length_drop]
    omega
  rw [Hunk.edits_begin] at h
  rw [← hsplit, List.map_append, List.append_assoc]
  refine h.prepend _ (fun hlater hnone => ?_) fun side => ?_
  · have hzero := congrArg List.length hnone
    have hfew := hfirst hlater
    rw [hlength, List.length_nil] at hzero
    omega
  · rw [Hunk.start_begin, hpassed, hlength]
    omega

/-- The edits of a hunk with the first of some equal lines, and the others behind it. -/
theorem Hunk.edits_add_take (h : Hunk) (lines : List String) (more : List Edit) :
    h.edits ++ (lines.map .keep ++ more) = (h.add (.same (lines.take radius))).edits ++
      ((lines.drop radius).map .keep ++ more) := by
  rw [edits_add, Block.edits, List.append_assoc, ← List.append_assoc (List.map _ (lines.take _)),
    ← List.map_append, List.take_append_drop]

theorem fits_change {oldStart newStart : ℕ} {current : Option Hunk} {deleted inserted : List String}
    {rest : List Block} (hturns : Alternating (.change deleted inserted :: rest))
    (hfits : Fits oldStart newStart current (.change deleted inserted :: rest)) :
    Fits (oldStart + deleted.length) (newStart + inserted.length)
      (some ((opened oldStart newStart current).add (.change deleted inserted))) rest := by
  refine ⟨fun side => ?_, fun hnone => ?_, fun _ h hsome => ?_, fun hchange => ?_⟩
  · have hfinish := hfits.finish_eq side
    refine (Hunk.finish_add _ _ side).trans ?_
    cases side with
    | old => exact congrArg (· + deleted.length) hfinish
    | new => exact congrArg (· + inserted.length) hfinish
  · cases hnone
  · cases hsome
    exact ready_opened hfits rfl deleted inserted (hturns.proper _ List.mem_cons_self)
  · rw [hturns.change_tail] at hchange
    cases hchange

/-- After equal lines a change comes, for which the hunk being filled must be ready. -/
theorem fits_same {oldStart newStart : ℕ} {lines : List String} {rest : List Block} {next : Hunk}
    (hturns : Alternating (.same lines :: rest)) (hrest : rest ≠ [])
    (hfinish : ∀ side, next.finish side = side.pick oldStart newStart + lines.length)
    (hready : next.Ready) :
    Fits (oldStart + lines.length) (newStart + lines.length) (some next) rest := by
  refine ⟨fun side => ?_, fun hnone => ?_, fun hother => ?_, fun _ h hsome => ?_⟩
  · refine (hfinish side).trans ?_
    cases side <;> rfl
  · cases hnone
  · rw [hturns.same_tail hrest] at hother
    cases hother
  · cases hsome
    exact hready

/-- The hunks that are filled hold the changes of the blocks, by induction on the blocks. -/
theorem cuts_hunksFrom {oldStart newStart : ℕ} {current : Option Hunk} {blocks : List Block}
    (hturns : Alternating blocks) (hfits : Fits oldStart newStart current blocks) :
    Cuts true (opened oldStart newStart current).start (hunksFrom oldStart newStart current blocks)
      ((opened oldStart newStart current).edits ++ editsOf blocks) := by
  fun_induction hunksFrom oldStart newStart current blocks with
  | case1 oldStart newStart current =>
    cases current with
    | none => exact .nil []
    | some h =>
      have hframed : Framed (∀ side, h.start side = 0) (editsOf [] = []) h.edits :=
        ⟨h.edits, [], (List.append_nil _).symm, hfits.filled rfl h rfl, Nat.zero_le _, fun _ => rfl⟩
      exact Cuts.first hframed (.nil [])
  | case2 oldStart newStart current deleted inserted rest ih =>
    rw [editsOf_cons, ← List.append_assoc, ← Hunk.edits_add]
    exact ih hturns.tail (fits_change hturns hfits)
  | case3 oldStart newStart current lines =>
    rw [editsOf_cons]
    cases current with
    | none =>
      rw [Block.edits, editsOf, List.flatMap_nil, List.append_nil]
      exact .nil lines
    | some h =>
      have hframed : Framed (∀ side, h.start side = 0)
          ((lines.drop radius).map Edit.keep ++ editsOf [] = [])
          (h.add (.same (lines.take radius))).edits := by
        refine (hfits.filled rfl h rfl).framed_add fun hfew => ?_
        rw [List.drop_eq_nil_of_le (by omega)]
        rfl
      have hnone : Cuts false (h.add (.same (lines.take radius))).finish []
          ((lines.drop radius).map Edit.keep ++ editsOf []) := by
        rw [editsOf, List.flatMap_nil, List.append_nil]
        exact .nil _
      have hfirst := Cuts.first hframed hnone
      rw [← Hunk.edits_add_take] at hfirst
      exact hfirst
  | case4 oldStart newStart current lines rest hrest closed next hpass ih =>
    have hne : lines ≠ [] := hturns.proper _ List.mem_cons_self
    have hrest' : rest ≠ [] := hrest
    rw [editsOf_cons]
    cases current with
    | none =>
      cases hpass
      have hready := Hunk.ready_begin oldStart newStart lines fun _ => hfits.start rfl
      have hcuts := ih hturns.tail
        (fits_same hturns hrest' (Hunk.finish_begin oldStart newStart lines) hready)
      refine Cuts.leave_out hcuts (Nat.zero_le _) (fun hlater => ?_) fun side => ?_
      · cases hlater
      · cases side <;> rfl
    | some h =>
      have hfilled : h.Filled := hfits.filled rfl h rfl
      have hfinish : ∀ side, h.finish side = side.pick oldStart newStart := hfits.finish_eq
      unfold passSame at hpass
      split_ifs at hpass with hmany
      · -- Many equal lines: the hunk ends with the first, and the next one begins with the last.
        cases hpass
        have hready := Hunk.ready_begin oldStart newStart lines fun hfew => by omega
        have hcuts := ih hturns.tail
          (fits_same hturns hrest' (Hunk.finish_begin oldStart newStart lines) hready)
        have hclosed : ∀ side, (h.add (.same (lines.take radius))).finish side =
            side.pick oldStart newStart + radius := by
          intro side
          rw [Hunk.finish_add, hfinish, Block.on, List.length_take]
          omega
        have hlater : Cuts false (h.add (.same (lines.take radius))).finish _
            ((lines.drop radius).map Edit.keep ++ editsOf rest) :=
          Cuts.leave_out hcuts (by omega) (fun _ => by omega) hclosed
        have hfirst := Cuts.first (hfilled.framed_add fun hfew => by omega) hlater
        rw [← Hunk.edits_add_take] at hfirst
        exact hfirst
      · -- Few equal lines stay in the hunk.
        cases hpass
        have hfinish' : ∀ side, (h.add (.same lines)).finish side =
            side.pick oldStart newStart + lines.length := by
          intro side
          rw [Hunk.finish_add, hfinish, Block.on]
        have hready := hfilled.ready_add hne (Nat.le_of_not_lt hmany)
        have hcuts := ih hturns.tail (fits_same hturns hrest' hfinish' hready)
        rw [← List.append_assoc]
        exact (h.edits_add (.same lines)) ▸ hcuts

/-- The hunks of a script, from the start of the text. -/
theorem cuts_hunks (edits : List Edit) :
    Cuts true (fun _ => 0) (hunks edits) (editsOf (blocks edits)) := by
  have hzero : (opened 0 0 none).start = fun _ => 0 := by
    funext side
    cases side <;> rfl
  have hfits : Fits 0 0 none (blocks edits) := by
    refine ⟨fun side => ?_, fun _ => ⟨rfl, rfl⟩, ?_, ?_⟩
    · cases side <;> rfl
    · rintro _ h ⟨⟩
    · rintro _ h ⟨⟩
  have hcuts := cuts_hunksFrom (alternating_blocks edits) hfits
  rw [hzero] at hcuts
  exact hcuts

/-! ## What follows for each hunk -/

namespace Cuts

variable {first : Bool} {passed : Side → ℕ} {hs : List Hunk} {edits : List Edit}

/-- Each hunk covers lines of the text on either side, from its start on. -/
theorem covers (h : Cuts first passed hs edits) {x : Hunk} (hx : x ∈ hs) (side : Side) :
    ∃ before after, linesOn side edits = before ++ linesOn side x.edits ++ after ∧
      x.start side = passed side + before.length := by
  induction h with
  | nil => cases hx
  | @cons first passed gap h hs rest _ hstart _ _ ih =>
    rw [linesOn_append, linesOn_append, linesOn_map_keep]
    rcases List.mem_cons.1 hx with rfl | hx
    · exact ⟨gap, linesOn side rest, rfl, hstart side⟩
    · obtain ⟨before, after, hlines, hbefore⟩ := ih hx
      refine ⟨gap ++ linesOn side h.edits ++ before, after, ?_, ?_⟩
      · rw [hlines, List.append_assoc, List.append_assoc, List.append_assoc, List.append_assoc,
          List.append_assoc]
      · rw [hbefore, Hunk.finish, hstart, List.length_append, List.length_append]
        omega

theorem le_start (h : Cuts first passed hs edits) {x : Hunk} (hx : x ∈ hs) (side : Side) :
    passed side ≤ x.start side ∧ (first = false → passed side < x.start side) := by
  induction h with
  | nil => cases hx
  | @cons first passed gap h hs rest hgap hstart _ _ ih =>
    have hlength : first = false → 0 < gap.length := fun hlater =>
      List.length_pos_iff.2 (hgap hlater)
    have hbegin := hstart side
    rcases List.mem_cons.1 hx with rfl | hx
    · exact ⟨by omega, fun hlater => by have := hlength hlater; omega⟩
    · have hafter := (ih hx).1
      rw [Hunk.finish] at hafter
      exact ⟨by omega, fun hlater => by have := hlength hlater; omega⟩

/-- The hunks follow each other, with lines between them that they leave out. -/
theorem pairwise (h : Cuts first passed hs edits) :
    hs.Pairwise fun a b => ∀ side, a.finish side < b.start side := by
  induction h with
  | nil => exact .nil
  | cons gap h _ _ _ hrest ih =>
    exact .cons (fun b hb side => (hrest.le_start hb side).2 rfl) ih

theorem changeCount_eq (h : Cuts first passed hs edits) :
    changeCount (hs.flatMap Hunk.edits) = changeCount edits := by
  induction h with
  | nil lines => exact (changeCount_map_keep lines).symm
  | cons gap h _ _ _ _ ih =>
    rw [List.flatMap_cons, changeCount_append, ih, changeCount_append, changeCount_append,
      changeCount_map_keep, Nat.zero_add]

theorem framed (h : Cuts first passed hs edits) {x : Hunk} (hx : x ∈ hs) :
    Framed (∀ side, x.start side = 0)
      (∀ side, x.finish side = passed side + (linesOn side edits).length) x.edits := by
  induction h with
  | nil => cases hx
  | @cons first passed gap h hs rest _ hstart hframed _ ih =>
    have hlength : ∀ side, passed side + (linesOn side (gap.map .keep ++ h.edits ++ rest)).length =
        h.finish side + (linesOn side rest).length := by
      intro side
      rw [linesOn_append, linesOn_append, linesOn_map_keep, List.length_append, List.length_append,
        Hunk.finish, hstart]
      omega
    simp only [hlength]
    rcases List.mem_cons.1 hx with rfl | hx
    · obtain ⟨headed, after, hedits, hheaded, hfew, hend⟩ := hframed
      refine ⟨headed, after, hedits, hheaded, hfew, fun hless side => ?_⟩
      rw [hend hless, linesOn_nil, List.length_nil, Nat.add_zero]
    · exact ih hx

end Cuts

theorem Changes.changeCount_pos {edits : List Edit} (h : Changes edits) :
    0 < changeCount edits := by
  have hpos : ∀ {deleted inserted : List String}, (Block.change deleted inserted).IsProper →
      0 < changeCount (Block.change deleted inserted).edits := by
    intro deleted inserted hproper
    rw [changeCount_edits]
    rcases hproper with hne | hne
    · have := List.length_pos_iff.2 hne
      omega
    · have := List.length_pos_iff.2 hne
      omega
  cases h with
  | one hproper => exact hpos hproper
  | more _ _ _ hproper =>
    have := hpos hproper
    rw [changeCount_append]
    omega

theorem Framed.changeCount_pos {atStart atEnd : Prop} {edits : List Edit}
    (h : Framed atStart atEnd edits) : 0 < changeCount edits := by
  obtain ⟨headed, after, rfl, ⟨before, changes, rfl, hchanges, -, -⟩, -, -⟩ := h
  have := hchanges.changeCount_pos
  rw [changeCount_append, changeCount_append]
  omega

/-- The hunks hold all the changes of a script. -/
theorem changeCount_hunks (edits : List Edit) :
    changeCount ((hunks edits).flatMap Hunk.edits) = changeCount edits :=
  (cuts_hunks edits).changeCount_eq.trans (alike_blocks edits).count_eq

/-- A script has a hunk exactly if it has a change. -/
theorem hunks_eq_nil_iff (edits : List Edit) : hunks edits = [] ↔ changeCount edits = 0 := by
  have hcount := changeCount_hunks edits
  cases hhunks : hunks edits with
  | nil =>
    rw [hhunks] at hcount
    exact iff_of_true rfl hcount.symm
  | cons first rest =>
    have hpos := ((cuts_hunks edits).framed (x := first) (by simp [hhunks])).changeCount_pos
    rw [hhunks, List.flatMap_cons, changeCount_append] at hcount
    exact iff_of_false (List.cons_ne_nil first rest) (by omega)

end HttpStubs.Diff
