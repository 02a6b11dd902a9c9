import Mathlib.Data.List.Basic
import HttpStubs.Proofs.ArtifactLayout
import HttpStubs.Proofs.Placement

/-!
# Lines of steps, rule by rule

What steps write, for each way to compose them. Lines and blocks (`Solid`) write their own lines one
after the other (`lineList_append`, `lineList_flatMap`), a block indents what its body writes
(`lineList_block`), a request for a blank line below a line that allows one gives an empty line
(`lineList_blank`), and a chain of branches is written without a break: each branch continues the
closing brace of the branch above it (`written_branches`, `lineList_chain`).
-/

namespace HttpStubs.Code

namespace Step

open Writer (allowsBlank indented tabs)

/-! ## Steps that write lines of their own -/

/-- Whether a step is a line or a block. -/
def isSolid : Step → Bool
  | .line _ => true
  | .block .. => true
  | _ => false

@[simp] theorem isSolid_line (text : String) : (line text).isSolid :=
  rfl

@[simp] theorem isSolid_block (opening closing : String) (body : List Step) :
    (block opening closing body).isSolid :=
  rfl

@[simp] theorem isSolid_braces (head : String) (body : List Step) : (braces head body).isSolid :=
  rfl

/-- The steps are lines and blocks. -/
def Solid (steps : List Step) : Prop :=
  ∀ step ∈ steps, step.isSolid

@[simp] theorem solid_nil : Solid [] := by
  simp [Solid]

@[simp] theorem solid_cons {step : Step} {steps : List Step} :
    Solid (step :: steps) ↔ step.isSolid ∧ Solid steps := by
  simp [Solid]

@[simp] theorem solid_append {steps more : List Step} :
    Solid (steps ++ more) ↔ Solid steps ∧ Solid more := by
  simp [Solid, or_imp, forall_and]

@[simp] theorem solid_map {α : Type} {xs : List α} {f : α → Step} :
    Solid (xs.map f) ↔ ∀ x ∈ xs, (f x).isSolid := by
  simp [Solid]

@[simp] theorem solid_flatMap {α : Type} {xs : List α} {f : α → List Step} :
    Solid (xs.flatMap f) ↔ ∀ x ∈ xs, Solid (f x) := by
  simp only [Solid, List.mem_flatMap]
  constructor
  · intro h x hx step hstep
    exact h step ⟨x, hx, hstep⟩
  · rintro h step ⟨x, hx, hstep⟩
    exact h x hx step hstep

theorem startsLine_singleton {step : Step} (h : step.isSolid) : startsLine [step] := by
  cases step with
  | line text => rfl
  | block opening closing body => rfl
  | _ => cases h

theorem pendingBlank_run {step : Step} (h : step.isSolid) (w : Writer) :
    (step.run w).pendingBlank = false := by
  cases step with
  | line text => exact Writer.pendingBlank_line w text
  | block opening closing body => exact Writer.pendingBlank_line _ closing
  | _ => cases h

theorem pendingBlank_enter (w : Writer) (opening : String) :
    (w.enter opening).pendingBlank = false :=
  w.pendingBlank_line opening

theorem flushBlank_of_calm {w : Writer} (calm : w.pendingBlank = false) : w.flushBlank = w := by
  simp [Writer.flushBlank, calm]

/-- Steps that begin with a line, below lines after which no blank line is asked for. -/
theorem written_below {steps : List Step} (h : startsLine steps) {w : Writer}
    (calm : w.pendingBlank = false) :
    (runAll steps w).written.reverse =
      w.written.reverse ++ (lineList steps).map (indented w.depth) := by
  rw [written_of_startsLine h, flushBlank_of_calm calm, List.reverse_append, ← List.map_reverse]
  rfl

theorem written_solid {steps : List Step} (h : Solid steps) {w : Writer}
    (calm : w.pendingBlank = false) :
    (runAll steps w).pendingBlank = false ∧ (runAll steps w).written.reverse =
      w.written.reverse ++ (steps.flatMap fun step => lineList [step]).map (indented w.depth) := by
  induction steps generalizing w with
  | nil => exact ⟨calm, by simp [runAll]⟩
  | cons step steps ih =>
    rw [solid_cons] at h
    obtain ⟨calm', hlines⟩ := ih h.2 (pendingBlank_run h.1 w)
    refine ⟨calm', ?_⟩
    have hstep := written_below (startsLine_singleton h.1) calm
    rw [runAll, hlines, depth_run, List.flatMap_cons, List.map_append, ← List.append_assoc,
      ← hstep]
    rfl

theorem lineList_solid {steps : List Step} (h : Solid steps) :
    lineList steps = steps.flatMap fun step => lineList [step] := by
  have hzero : indented 0 = id := funext Writer.indented_zero
  have hlines := (written_solid h (w := {}) rfl).2
  rw [hzero, List.map_id] at hlines
  exact hlines

/-- Lines and blocks write their lines one after the other. -/
theorem lineList_append {steps more : List Step} (h : Solid steps) (h' : Solid more) :
    lineList (steps ++ more) = lineList steps ++ lineList more := by
  rw [lineList_solid h, lineList_solid h', lineList_solid (solid_append.2 ⟨h, h'⟩),
    List.flatMap_append]

theorem lineList_cons {step : Step} {steps : List Step} (h : step.isSolid) (h' : Solid steps) :
    lineList (step :: steps) = lineList [step] ++ lineList steps := by
  have hstep : Solid [step] := by simpa using h
  exact lineList_append hstep h'

theorem lineList_flatMap {α : Type} {xs : List α} {f : α → List Step}
    (h : ∀ x ∈ xs, Solid (f x)) :
    lineList (xs.flatMap f) = xs.flatMap fun x => lineList (f x) := by
  induction xs with
  | nil => rfl
  | cons x xs ih =>
    rw [List.forall_mem_cons] at h
    rw [List.flatMap_cons, lineList_append h.1 (solid_flatMap.2 h.2), ih h.2, List.flatMap_cons]

@[simp] theorem lineList_line (text : String) : lineList [.line text] = [text] := by
  change [indented 0 text] = [text]
  rw [Writer.indented_zero]

/-- A block indents the lines of its body. -/
theorem lineList_block (opening closing : String) {body : List Step}
    (h : body = [] ∨ startsLine body) :
    lineList [.block opening closing body] =
      opening :: (lineList body).map (indented 1) ++ [closing] := by
  have hbody : (runAll body (({} : Writer).enter opening)).written.reverse =
      opening :: (lineList body).map (indented 1) := by
    rcases h with rfl | h
    · change [indented 0 opening] = [opening]
      rw [Writer.indented_zero]
    · rw [written_below h (pendingBlank_enter _ opening)]
      change [indented 0 opening] ++ _ = _
      rw [Writer.indented_zero]
      rfl
  have hdepth : (runAll body (({} : Writer).enter opening)).depth = 1 := by
    rw [depth_runAll]
    rfl
  change (Writer.leave _ closing).written.reverse = _
  rw [Writer.leave, Writer.written_line, flushBlank_of_calm rfl, hdepth, Nat.sub_self,
    Writer.indented_zero, List.reverse_cons, hbody]

theorem lineList_map_line (texts : List String) : lineList (texts.map .line) = texts := by
  have hsolid : Solid (texts.map .line) := by simp
  rw [lineList_solid hsolid, List.flatMap_map]
  simp

/-- A block in braces around lines and blocks. -/
theorem lineList_braces (head : String) {body : List Step} (h : Solid body) :
    lineList [.braces head body] =
      (head ++ " \x7b") :: (lineList body).map (indented 1) ++ ["\x7d"] := by
  refine lineList_block _ _ ?_
  cases body with
  | nil => exact .inl rfl
  | cons step body =>
    rw [solid_cons] at h
    cases step with
    | line text => exact .inr rfl
    | block opening closing body => exact .inr rfl
    | _ => cases h.1

@[simp] theorem lineList_braces_line (head text : String) :
    lineList [.braces head [.line text]] = [head ++ " \x7b", indented 1 text, "\x7d"] := by
  rw [lineList_braces head (by simp), lineList_line]
  rfl

/-- Steps below a line that allows a blank line, with one asked for. -/
theorem lineList_blank {steps more : List Step} (h : startsLine more)
    (allowed : allowsBlank (lineList steps)) :
    lineList (steps ++ .blank :: more) = lineList steps ++ "" :: lineList more := by
  have hzero : indented 0 = id := funext Writer.indented_zero
  have hdepth : (runAll steps {}).blank.depth = 0 := depth_runAll steps {}
  have hflush : (runAll steps {}).blank.flushBlank.written.reverse = lineList steps ++ [""] := by
    unfold lineList at allowed ⊢
    rw [Writer.reverse_written_flushBlank, if_pos allowed]
  have hmore := written_of_startsLine h (runAll steps {}).blank
  rw [hdepth, hzero, List.map_id] at hmore
  rw [lineList, runAll_append]
  change (runAll more (runAll steps {}).blank).written.reverse = _
  rw [hmore, List.reverse_append, hflush, List.append_assoc]
  rfl

theorem allowsBlank_append {lines more : List String} (h : allowsBlank more) :
    allowsBlank (lines ++ more) := by
  unfold allowsBlank at h ⊢
  rw [List.getLast?_append]
  cases hlast : more.getLast? with
  | none => simp [hlast] at h
  | some last => simpa [hlast] using h

/-! ## Chains of branches -/

/-- The steps that continue a chain, one for each opening with its body. -/
def branches (bs : List (String × List Step)) : List Step :=
  bs.map fun b => .chain b.1 "\x7d" b.2

/-- The lines of the branches that continue a chain, from the brace that the first of them takes
over to the brace that closes the last. -/
def branchLines (bs : List (String × List Step)) : List String :=
  bs.flatMap (fun b => ("\x7d " ++ b.1) :: (lineList b.2).map (indented 1)) ++ ["\x7d"]

/-- The last line is a closing brace at the writer's own depth. -/
def EndsInBrace (w : Writer) (above : List String) : Prop :=
  w.pendingBlank = false ∧ w.written.reverse = above ++ [indented w.depth "\x7d"]

theorem indented_brace (depth : ℕ) : indented depth "\x7d" = tabs depth ++ "\x7d" :=
  Writer.indented_of_ne (by decide)

/-- One branch: it takes the brace over and leaves one behind. -/
theorem EndsInBrace.chain {w : Writer} {above : List String} (h : EndsInBrace w above)
    (opening : String) {body : List Step} (hbody : startsLine body) :
    EndsInBrace ((Step.chain opening "\x7d" body).run w)
      (above ++ (("\x7d " ++ opening) :: (lineList body).map (indented 1)).map
        (indented w.depth)) := by
  obtain ⟨calm, hwritten⟩ := h
  have hwritten' : w.written = (tabs w.depth ++ "\x7d") :: above.reverse := by
    rw [← List.reverse_reverse w.written, hwritten, indented_brace]
    simp
  have henter : w.enterChain opening =
      ({ w with written := above.reverse } : Writer).enter ("\x7d " ++ opening) := by
    unfold Writer.enterChain
    simp [hwritten', calm]
  have hopened : (w.enterChain opening).written.reverse =
      above ++ [indented w.depth ("\x7d " ++ opening)] := by
    rw [henter]
    simp [Writer.enter, Writer.written_line, Writer.flushBlank, calm]
  have hlines : (runAll body (w.enterChain opening)).written.reverse =
      above ++ [indented w.depth ("\x7d " ++ opening)] ++
        (lineList body).map (indented (w.depth + 1)) := by
    rw [written_below hbody (henter ▸ pendingBlank_enter _ _), hopened,
      Writer.depth_enterChain]
  have hdepth : (runAll body (w.enterChain opening)).depth - 1 = w.depth := by
    rw [depth_runAll, Writer.depth_enterChain, Nat.add_sub_cancel]
  refine ⟨Writer.pendingBlank_line _ _, ?_⟩
  rw [depth_run, Step.run, Writer.leave, Writer.written_line, flushBlank_of_calm rfl, hdepth,
    List.reverse_cons, hlines]
  simp [Writer.indented_indented]

/-- All branches, by induction: after each the last line is again a brace to continue. -/
theorem written_branches {bs : List (String × List Step)} (hbs : ∀ b ∈ bs, startsLine b.2)
    {w : Writer} {above : List String} (h : EndsInBrace w above) :
    (runAll (branches bs) w).written.reverse =
      above ++ (branchLines bs).map (indented w.depth) := by
  induction bs generalizing w above with
  | nil => simp [branches, runAll, branchLines, h.2]
  | cons b bs ih =>
    rw [List.forall_mem_cons] at hbs
    have hrest := ih hbs.2 (h.chain b.1 hbs.1)
    rw [depth_run] at hrest
    change (runAll (branches bs) _).written.reverse = _
    rw [hrest]
    simp [branchLines]

/-- A whole chain below lines and blocks: its first branch is a block, and the others follow on. -/
theorem lineList_chain {front : List Step} (hfront : Solid front)
    (opening : String) {body : List Step} (hbody : startsLine body)
    {bs : List (String × List Step)} (hbs : ∀ b ∈ bs, startsLine b.2) :
    lineList (front ++ .block opening "\x7d" body :: branches bs) =
      lineList front ++ opening :: (lineList body).map (indented 1) ++ branchLines bs := by
  have hzero : indented 0 = id := funext Writer.indented_zero
  have hblock : Solid [.block opening "\x7d" body] := by simp
  have hsolid := solid_append.2 ⟨hfront, hblock⟩
  have hdepth : (runAll (front ++ [.block opening "\x7d" body]) {}).depth = 0 :=
    depth_runAll _ {}
  have hfirst : EndsInBrace (runAll (front ++ [.block opening "\x7d" body]) {})
      (lineList front ++ opening :: (lineList body).map (indented 1)) := by
    refine ⟨(written_solid hsolid rfl).1, ?_⟩
    have hlines := lineList_append hfront hblock
    rw [lineList_block _ _ (.inr hbody)] at hlines
    rw [hdepth, Writer.indented_zero, List.append_assoc]
    exact hlines
  have hrest := written_branches hbs hfirst
  rw [hdepth, hzero, List.map_id, ← runAll_append, List.append_assoc] at hrest
  exact hrest

end Step

end HttpStubs.Code
