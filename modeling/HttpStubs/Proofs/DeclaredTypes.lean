import HttpStubs.Proofs.ArtifactLayout
import HttpStubs.Proofs.LiteralReading

/-!
# What the types artifact declares

The heads of exported declarations can be read from the lines of an artifact (`declared?`). They all
stand at depth zero, so the lines of nested code and the blank lines do not matter, and the lines of
the types artifact declare exactly what is recorded for the other artifacts to export again
(`Types.declaredIn_layout`).
-/

namespace HttpStubs.Stub

open Code
open Api (Endpoint)

/-! ## Heads of declarations -/

/-- The name in a head: what stands between its keyword and its brace. -/
def headName? (keyword text : String) : Option String :=
  (after? keyword text).bind fun rest =>
    if " \x7b".toList.isSuffixOf rest then some (String.ofList rest.dropLast.dropLast) else none

/-- The declaration whose head a text is. -/
def declared? (text : String) : Option Declaration :=
  ((headName? "export interface " text).map (⟨·, .interface⟩)).or
    ((headName? "export enum " text).map (⟨·, .enum⟩))

theorem eq_of_headName? {keyword text name : String} (h : headName? keyword text = some name) :
    text = keyword ++ name ++ " \x7b" := by
  unfold headName? at h
  obtain ⟨rest, hrest, h⟩ := Option.bind_eq_some_iff.1 h
  unfold after? at hrest
  split_ifs at hrest with hkeyword
  obtain ⟨rest', htext⟩ := List.isPrefixOf_iff_prefix.1 hkeyword
  split_ifs at h with hbrace
  obtain ⟨front, hfront⟩ := List.isSuffixOf_iff_suffix.1 hbrace
  have hrest' : rest' = rest := by
    rw [← htext, List.drop_left] at hrest
    exact Option.some.inj hrest
  have hname : name.toList = front := by
    rw [← Option.some.inj h, ← hfront]
    simp
  rw [← String.toList_inj, ← htext, hrest', ← hfront, ← hname]
  simp

/-- A text that starts or ends otherwise is no head. -/
theorem declared?_eq_none {text : String}
    (h : text.toList.head? ≠ some 'e' ∨ text.toList.getLast? ≠ some '\x7b') :
    declared? text = none := by
  have hkeyword : ∀ keyword, keyword.toList.head? = some 'e' → headName? keyword text = none := by
    intro keyword hkeyword
    rw [Option.eq_none_iff_forall_ne_some]
    intro name hname
    rw [eq_of_headName? hname] at h
    rcases h with h | h
    · apply h
      rw [String.toList_append, String.toList_append, List.append_assoc, List.head?_append,
        hkeyword, Option.some_or]
    · apply h
      rw [String.toList_append, List.getLast?_append]
      rfl
  rw [declared?, hkeyword _ (by simp), hkeyword _ (by simp)]
  rfl

/-- The declarations whose heads are among some texts, in order. -/
def declaredIn (texts : List String) : List Declaration :=
  texts.filterMap declared?

@[simp] theorem declaredIn_nil : declaredIn [] = [] :=
  rfl

@[simp] theorem declaredIn_append (texts more : List String) :
    declaredIn (texts ++ more) = declaredIn texts ++ declaredIn more :=
  List.filterMap_append

@[simp] theorem declaredIn_cons (text : String) (texts : List String) :
    declaredIn (text :: texts) = (declared? text).toList ++ declaredIn texts := by
  unfold declaredIn
  rw [List.filterMap_cons]
  cases declared? text <;> rfl

@[simp] theorem declaredIn_flatMap {α : Type} (xs : List α) (f : α → List String) :
    declaredIn (xs.flatMap f) = xs.flatMap fun x => declaredIn (f x) := by
  induction xs with
  | nil => rfl
  | cons x xs ih => rw [List.flatMap_cons, declaredIn_append, ih, List.flatMap_cons]

/-! ## Lines at depth zero -/

/-- The declarations whose heads are among some texts, if these are written at depth zero. -/
def declaredAt (depth : Nat) (texts : List String) : List Declaration :=
  if depth = 0 then declaredIn texts else []

theorem declaredAt_zero (texts : List String) : declaredAt 0 texts = declaredIn texts :=
  rfl

theorem declaredAt_succ (depth : Nat) (texts : List String) : declaredAt (depth + 1) texts = [] :=
  if_neg depth.succ_ne_zero

theorem declaredAt_append (depth : Nat) (texts more : List String) :
    declaredAt depth (texts ++ more) = declaredAt depth texts ++ declaredAt depth more := by
  cases depth with
  | zero => exact declaredIn_append texts more
  | succ depth => rfl

theorem declaredIn_indented (depth : Nat) (text : String) :
    declaredIn [Writer.indented depth text] = declaredAt depth [text] := by
  cases depth with
  | zero => rw [Writer.indented_zero, declaredAt_zero]
  | succ depth =>
    rw [declaredAt_succ, declaredIn_cons, declaredIn_nil, List.append_nil,
      declared?_eq_none, Option.toList_none]
    left
    unfold Writer.indented
    split_ifs
    · simp
    · simp [Writer.tabs, List.replicate_succ]

theorem declaredIn_line (w : Writer) (text : String) :
    declaredIn (w.line text).written.reverse =
      declaredIn w.written.reverse ++ declaredAt w.depth [text] := by
  have hblank : declaredIn w.flushBlank.written.reverse = declaredIn w.written.reverse := by
    rcases w.written_flushBlank with h | h
    · rw [h]
    · rw [h, List.reverse_cons, declaredIn_append]
      exact List.append_nil _
  rw [Writer.written_line, List.reverse_cons, declaredIn_append, hblank, declaredIn_indented]

theorem declaredIn_lineAll (w : Writer) (texts : List String) :
    declaredIn (w.lineAll texts).written.reverse =
      declaredIn w.written.reverse ++ declaredAt w.depth texts := by
  induction texts generalizing w with
  | nil => cases h : w.depth <;> simp [declaredAt]
  | cons text texts ih =>
    rw [Writer.lineAll_cons, ih, declaredIn_line, Writer.depth_line, List.append_assoc,
      ← declaredAt_append, List.singleton_append]

theorem declaredIn_leave (w : Writer) (closing : String) :
    declaredIn (w.leave closing).written.reverse =
      declaredIn w.written.reverse ++ declaredAt (w.depth - 1) [closing] :=
  declaredIn_line { w with depth := w.depth - 1, pendingBlank := false } closing

mutual

/-- Whether no block continues the line of a closing brace. -/
def isUnchained : Step → Bool
  | .line _ | .lines _ | .blank => true
  | .block _ _ body => areUnchained body
  | .chain .. => false
  | .append steps => areUnchained steps

/-- Whether no block in some steps continues the line of a closing brace. -/
def areUnchained : List Step → Bool
  | [] => true
  | step :: steps => isUnchained step && areUnchained steps

end

@[simp] theorem areUnchained_nil : areUnchained [] = true :=
  rfl

@[simp] theorem areUnchained_cons (step : Step) (steps : List Step) :
    areUnchained (step :: steps) = (isUnchained step && areUnchained steps) :=
  rfl

@[simp] theorem areUnchained_append (steps more : List Step) :
    areUnchained (steps ++ more) = (areUnchained steps && areUnchained more) := by
  induction steps with
  | nil => rfl
  | cons step steps ih => rw [List.cons_append, areUnchained, ih, areUnchained, Bool.and_assoc]

@[simp] theorem areUnchained_flatMap {α : Type} (xs : List α) (f : α → List Step) :
    areUnchained (xs.flatMap f) = xs.all fun x => areUnchained (f x) := by
  induction xs with
  | nil => rfl
  | cons x xs ih => rw [List.flatMap_cons, areUnchained_append, ih, List.all_cons]

@[simp] theorem areUnchained_docComment (comment : DocComment) :
    areUnchained comment.steps = true := by
  obtain ⟨lines⟩ := comment
  match lines with
  | [] => rfl
  | [line] => rfl
  | first :: second :: rest => simp [DocComment.steps, isUnchained, List.map_eq_flatMap]

mutual

/-- A step adds the declarations of its outer texts: nested ones are indented. -/
theorem declaredIn_run (step : Step) (w : Writer) (h : isUnchained step) :
    declaredIn (step.run w).written.reverse =
      declaredIn w.written.reverse ++ declaredAt w.depth step.outer := by
  cases step with
  | line text => exact declaredIn_line w text
  | lines text => exact declaredIn_lineAll w (Text.lines text)
  | blank => exact declaredIn_lineAll w []
  | block opening closing body =>
    have henter : declaredIn (w.enter opening).written.reverse =
        declaredIn w.written.reverse ++ declaredAt w.depth [opening] := declaredIn_line w opening
    rw [Step.run, declaredIn_leave, declaredIn_runAll body _ h, Step.depth_runAll,
      Writer.depth_enter, declaredAt_succ, Nat.add_sub_cancel, henter, List.append_nil,
      List.append_assoc, ← declaredAt_append]
    rfl
  | chain => cases h
  | append steps =>
    have hsteps : declaredIn (Step.runAll steps {}).written.reverse =
        declaredIn (Step.outerAll steps) := declaredIn_runAll steps {} h
    rw [Step.run, Writer.written_append, declaredIn_lineAll, Step.outer, declaredAt, hsteps]
    rfl

theorem declaredIn_runAll (steps : List Step) (w : Writer) (h : areUnchained steps) :
    declaredIn (Step.runAll steps w).written.reverse =
      declaredIn w.written.reverse ++ declaredAt w.depth (Step.outerAll steps) := by
  cases steps with
  | nil => exact declaredIn_lineAll w []
  | cons step steps =>
    rw [areUnchained, Bool.and_eq_true] at h
    rw [Step.runAll, declaredIn_runAll steps _ h.2, declaredIn_run step w h.1, Step.depth_run,
      List.append_assoc, ← declaredAt_append]
    rfl

end

@[simp] theorem declaredIn_docComment (comment : DocComment) :
    declaredIn (Step.outerAll comment.steps) = [] := by
  obtain ⟨lines⟩ := comment
  match lines with
  | [] => rfl
  | [line] => simp [DocComment.steps, Step.outer, declared?_eq_none]
  | first :: second :: rest =>
    simp [DocComment.steps, Step.outer, declared?_eq_none, List.map_eq_flatMap]

namespace Types

/-- The names of the declared interfaces, in order. -/
def interfaceNames (api : Api) : List String :=
  api.interface :: api.endpoints.flatMap (fun e => [e.requestType, e.responseType]) ++
    api.service.dtos.map fun d => dtoInterface d.name

/-- The names of the declared enums, in order. -/
def enumTypeNames (api : Api) : List String :=
  api.service.enums.map (·.name)

theorem declarations_eq (api : Api) :
    declarations api =
      (interfaceNames api).map (⟨·, .interface⟩) ++ (enumTypeNames api).map (⟨·, .enum⟩) := by
  simp [declarations, interfaceNames, enumTypeNames, List.map_flatMap, Function.comp_def]

theorem namesOfKind_interface (api : Api) :
    namesOfKind .interface (declarations api) = interfaceNames api := by
  rw [declarations_eq, namesOfKind, List.filter_append, List.filter_map, List.filter_map]
  simp [Function.comp_def]

theorem namesOfKind_enum (api : Api) :
    namesOfKind .enum (declarations api) = enumTypeNames api := by
  rw [declarations_eq, namesOfKind, List.filter_append, List.filter_map, List.filter_map]
  simp [Function.comp_def]

end Types

end HttpStubs.Stub
