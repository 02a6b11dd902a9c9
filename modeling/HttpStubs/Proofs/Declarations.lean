import Mathlib.Data.List.Nodup
import Mathlib.Data.Prod.Basic
import HttpStubs.Proofs.MethodLines
import HttpStubs.Proofs.UriVariables

/-!
# The variables of a client method

`declarations` reads from lines the variables that they declare, each with the depth of its line. In
a method these are the variables of the path fields, `uri`, `query` if there is a query, and
`fetchRequest`, and one level deeper `status`, `value` and, if response headers are read,
`headerValue` (`declarations_bodyLines`). Only path fields can share a variable, so a method
declares a variable twice exactly if the names of two path fields differ only in the case of the
first letter (`variables_distinct_iff`).
-/

namespace HttpStubs

/-! ## Reading declarations -/

namespace Code

open Writer (indented)

/-- What follows the keyword of a declaration. -/
def afterKeyword? (line : String) : Option (List Char) :=
  (after? "const " line).or (after? "let " line)

/-- The depth of a line and the variable that it declares. -/
def declaration? (line : String) : Option (ℕ × String) :=
  (afterKeyword? (String.ofList (line.toList.dropWhile (· == '\t')))).map fun cs =>
    ((line.toList.takeWhile (· == '\t')).length, String.ofList (cs.takeWhile isNameChar))

/-- The variables that lines declare, in order. -/
def declarations (lines : List String) : List (ℕ × String) :=
  lines.filterMap declaration?

theorem declarations_cons (line : String) (lines : List String) :
    declarations (line :: lines) = (declaration? line).toList ++ declarations lines := by
  unfold declarations
  cases hline : declaration? line <;> simp [hline]

@[simp] theorem declarations_append (lines more : List String) :
    declarations (lines ++ more) = declarations lines ++ declarations more :=
  List.filterMap_append

@[simp] theorem declarations_flatMap {α : Type} (xs : List α) (f : α → List String) :
    declarations (xs.flatMap f) = xs.flatMap fun x => declarations (f x) := by
  induction xs with
  | nil => rfl
  | cons x xs ih => rw [List.flatMap_cons, declarations_append, ih, List.flatMap_cons]

/-- The same declaration on a line that is moved in. -/
def deepen (depth : ℕ) (x : ℕ × String) : ℕ × String :=
  (depth + x.1, x.2)

theorem deepen_injective {depth : ℕ} : Function.Injective (deepen depth) := by
  intro x y h
  simpa [deepen, Prod.ext_iff] using h

theorem declaration?_indented (depth : ℕ) (line : String) :
    declaration? (indented depth line) = (declaration? line).map (deepen depth) := by
  by_cases hempty : line = ""
  · subst hempty
    rw [(Writer.indented_eq_empty_iff).2 rfl]
    rfl
  · have htabs : ∀ c ∈ List.replicate depth '\t', (c == '\t') = true := by
      intro c hc
      rw [List.eq_of_mem_replicate hc]
      rfl
    rw [Writer.indented_of_ne hempty, declaration?, declaration?, String.toList_append, Writer.tabs,
      String.toList_ofList, List.dropWhile_append_of_pos htabs, List.takeWhile_append_of_pos htabs,
      List.length_append, List.length_replicate, Option.map_map]
    rfl

theorem declarations_indented (depth : ℕ) (lines : List String) :
    declarations (lines.map (indented depth)) = (declarations lines).map (deepen depth) := by
  induction lines with
  | nil => rfl
  | cons line lines ih =>
    rw [List.map_cons, declarations_cons, declarations_cons, declaration?_indented, ih,
      List.map_append]
    cases declaration? line <;> rfl

theorem afterKeyword?_append {keyword : String} (h : keyword ∈ ["const ", "let "]) (rest : String) :
    afterKeyword? (keyword ++ rest) = some rest.toList := by
  unfold afterKeyword?
  rcases List.mem_pair.1 h with rfl | rfl
  · rw [after?_append]
    rfl
  · rw [after?_append, after?, if_neg (by simp)]
    rfl

theorem declaration?_keyword {keyword name rest : String} (hkeyword : keyword ∈ ["const ", "let "])
    (hname : name.toList.all isNameChar) (hrest : rest.toList.head?.all fun c => !isNameChar c) :
    declaration? (keyword ++ (name ++ rest)) = some (0, name) := by
  have hend : ∀ c ∈ rest.toList.head?, isNameChar c = false := by
    simpa [Option.all_eq_true] using hrest
  have hread : (name ++ rest).toList.takeWhile isNameChar = name.toList := by
    rw [String.toList_append, takeWhile_name_append hname hend]
  have htab : ∀ cs, (keyword.toList ++ cs).dropWhile (· == '\t') = keyword.toList ++ cs ∧
      (keyword.toList ++ cs).takeWhile (· == '\t') = [] := by
    intro cs
    rcases List.mem_pair.1 hkeyword with rfl | rfl <;> exact ⟨rfl, rfl⟩
  have hafter := afterKeyword?_append hkeyword (name ++ rest)
  rw [declaration?, String.toList_append, (htab _).1, (htab _).2, ← String.toList_append,
    String.ofList_toList, hafter, Option.map_some, hread, String.ofList_toList]
  rfl

/-- Whether a line starts neither as a declaration nor with a tab. -/
def startsQuiet (line : String) : Bool :=
  line.toList.head?.all fun c => c != 'c' && c != 'l' && c != '\t'

theorem declaration?_eq_none {line : String} (h : startsQuiet line) : declaration? line = none := by
  unfold startsQuiet at h
  cases hcs : line.toList with
  | nil =>
    rw [declaration?, hcs]
    rfl
  | cons c cs =>
    rw [hcs] at h
    have hc : (c ≠ 'c' ∧ c ≠ 'l') ∧ c ≠ '\t' := by simpa using h
    rw [declaration?, hcs, List.dropWhile_cons_of_neg (by simp [hc.2])]
    simp [afterKeyword?, after?, hc.1.1.symm, hc.1.2.symm]

/-- Lines that declare nothing. -/
def Quiet (lines : List String) : Prop :=
  ∀ line ∈ lines, declaration? line = none

instance (lines : List String) : Decidable (Quiet lines) :=
  inferInstanceAs (Decidable (∀ line ∈ lines, declaration? line = none))

@[simp] theorem quiet_nil : Quiet [] := by
  simp [Quiet]

@[simp] theorem quiet_cons {line : String} {lines : List String} :
    Quiet (line :: lines) ↔ declaration? line = none ∧ Quiet lines := by
  simp [Quiet]

@[simp] theorem quiet_append {lines more : List String} :
    Quiet (lines ++ more) ↔ Quiet lines ∧ Quiet more := by
  simp [Quiet, or_imp, forall_and]

@[simp] theorem quiet_flatMap {α : Type} {xs : List α} {f : α → List String} :
    Quiet (xs.flatMap f) ↔ ∀ x ∈ xs, Quiet (f x) := by
  simp only [Quiet, List.forall_mem_flatMap]

@[simp] theorem quiet_map_indented {lines : List String} {depth : ℕ} :
    Quiet (lines.map (indented depth)) ↔ Quiet lines := by
  simp [Quiet, declaration?_indented]

@[simp] theorem declaration?_indented_eq_none {line : String} {depth : ℕ} :
    declaration? (indented depth line) = none ↔ declaration? line = none := by
  rw [declaration?_indented, Option.map_eq_none_iff]

theorem Quiet.declarations_eq {lines : List String} (h : Quiet lines) : declarations lines = [] :=
  List.filterMap_eq_nil_iff.2 h

end Code

/-! ## The declarations of a method -/

namespace Stub.Client

open Api (Endpoint Response ResponseBody Slot)
open Code
open Code.Writer (indented)

/-- A line that starts with a property access declares nothing. -/
theorem startsQuiet_access {object : String} (h : object ∈ ["request", "value"])
    (name rest : String) : startsQuiet (propertyAccess object name ++ rest) := by
  unfold propertyAccess startsQuiet
  rcases List.mem_pair.1 h with rfl | rfl <;> split_ifs <;> simp

theorem quiet_refusal (name : String) : Quiet [indented 1 (refusalLine name), "\x7d"] := by
  have hreturn : startsQuiet (refusalLine name) := by
    delta refusalLine
    simp [startsQuiet]
  exact quiet_cons.2 ⟨declaration?_indented_eq_none.2 (declaration?_eq_none hreturn), by decide⟩

theorem declarations_guardLines (s : Slot) :
    declarations (guardLines s) = [(0, uriVariable s.name)] := by
  have hconst : declaration? ("const " ++ uriVariable s.name ++ " = " ++ requestField s.name ++
      " != null && " ++ s.kind.toUri (requestField s.name) ++ ";") =
        some (0, uriVariable s.name) := by
    have hname := all_isNameChar_of_isBareName (isBareName_uriVariable s.name)
    simp only [String.append_assoc]
    exact declaration?_keyword (by simp) hname (by simp; decide)
  have htest : startsQuiet ("if (!" ++ uriVariable s.name ++ ") \x7b") := by simp [startsQuiet]
  have hrest := quiet_cons.2 ⟨declaration?_eq_none htest, quiet_refusal s.name⟩
  rw [guardLines, declarations_cons, hconst, hrest.declarations_eq]
  rfl

theorem declarations_guards (slots : List Slot) :
    declarations (slots.flatMap guardLines) = slots.map fun s => (0, uriVariable s.name) := by
  rw [declarations_flatMap, List.map_eq_flatMap]
  simp only [declarations_guardLines]

theorem declarations_bodyGuardLines (e : Endpoint) : declarations (bodyGuardLines e) = [] := by
  apply Quiet.declarations_eq
  rw [bodyGuardLines, quiet_flatMap]
  intro f _
  have htest : startsQuiet ("if (" ++ requestField f.name ++ " == null) \x7b") := by
    simp [startsQuiet]
  exact quiet_cons.2 ⟨declaration?_eq_none htest, quiet_refusal f.name⟩

theorem uriLine_eq (e : Endpoint) : ∃ keyword ∈ ["const ", "let "],
    uriLine e = keyword ++ ("uri" ++ (" = " ++ (uriExpression e.path ++ ";"))) := by
  unfold uriLine
  simp only [String.append_assoc]
  split_ifs
  · exact ⟨"const ", by simp, by simp [← String.toList_inj]⟩
  · exact ⟨"let ", by simp, by simp [← String.toList_inj]⟩

theorem declaration?_uriLine (e : Endpoint) : declaration? (uriLine e) = some (0, "uri") := by
  obtain ⟨keyword, hkeyword, hline⟩ := uriLine_eq e
  rw [hline]
  exact declaration?_keyword hkeyword (by decide) (by simp; decide)

/-- A declaration with a type in the typed dialect. -/
theorem declaration?_typed {keyword name : String} (hkeyword : keyword ∈ ["const ", "let "])
    (hname : name.toList.all isNameChar) (dialect : Dialect) (type rest : String)
    (hrest : rest.toList.head?.all fun c => !isNameChar c) :
    declaration? (keyword ++ name ++ dialect.onlyTyped (": " ++ type) ++ rest) =
      some (0, name) := by
  rw [String.append_assoc, String.append_assoc]
  refine declaration?_keyword hkeyword hname ?_
  cases dialect with
  | typeScript => simp [Dialect.onlyTyped, Dialect.isTyped]; decide
  | javaScript => simpa [Dialect.onlyTyped, Dialect.isTyped] using hrest

theorem declarations_queryLines (e : Endpoint) (dialect : Dialect) :
    declarations (queryLines e dialect) = if e.queryFields.isEmpty then [] else [(0, "query")] := by
  have hconst : declaration? ("const query" ++ dialect.onlyTyped ": string[]" ++ " = [];") =
      some (0, "query") :=
    @declaration?_typed "const " "query" (by simp) (by decide) dialect "string[]" _ (by decide)
  have hpush : Quiet (e.queryFields.map queryLine) := by
    intro line hline
    obtain ⟨s, -, rfl⟩ := List.mem_map.1 hline
    refine declaration?_eq_none ?_
    unfold queryLine requestField
    simp only [String.append_assoc]
    exact startsQuiet_access (by simp) _ _
  have hrest := quiet_append.2 ⟨hpush, (by decide : Quiet ["if (query.length) \x7b",
    "\turi = uri + '?' + query.join('&');", "\x7d"])⟩
  unfold queryLines
  split_ifs
  · rfl
  · rw [List.cons_append, declarations_cons, hconst, hrest.declarations_eq]
    rfl

theorem quiet_memberLines (e : Endpoint) : Quiet (memberLines e) := by
  unfold memberLines
  split
  next body _ =>
    refine quiet_cons.2 ⟨rfl, quiet_cons.2 ⟨declaration?_eq_none ?_, quiet_nil⟩⟩
    simp [startsQuiet]
  next => split_ifs <;> decide

theorem quiet_headerLines (dialect : Dialect) (s : Slot) : Quiet (headerLines dialect s) := by
  refine quiet_cons.2 ⟨declaration?_eq_none (by simp [startsQuiet]),
    quiet_cons.2 ⟨declaration?_indented_eq_none.2 ?_, by decide⟩⟩
  exact declaration?_eq_none (by simp [startsQuiet])

theorem declarations_requestLines (e : Endpoint) (dialect : Dialect) :
    declarations (requestLines e dialect) = [(0, "fetchRequest")] := by
  have hconst : declaration? ("const fetchRequest" ++ dialect.onlyTyped ": IFetchRequest" ++
      " = \x7b") = some (0, "fetchRequest") :=
    @declaration?_typed "const " "fetchRequest" (by simp) (by decide) dialect "IFetchRequest" _
      (by decide)
  have hmethod : startsQuiet ("method: " ++ literal e.verb.wire ++ ",") := by simp [startsQuiet]
  have hinner := quiet_cons.2 ⟨declaration?_eq_none hmethod, quiet_memberLines e⟩
  have hheaders : Quiet ("\x7d;" :: e.requestHeaderFields.flatMap (headerLines dialect)) :=
    quiet_cons.2 ⟨rfl, quiet_flatMap.2 fun s _ => quiet_headerLines dialect s⟩
  have hrest := quiet_append.2 ⟨(@quiet_map_indented _ 1).2 hinner, hheaders⟩
  rw [requestLines, List.cons_append, declarations_cons, hconst, hrest.declarations_eq]
  rfl

theorem quiet_decodingLines (e : Endpoint) (dialect : Dialect) (body : ResponseBody) :
    Quiet (decodingLines e dialect body) := by
  cases body with
  | empty => exact quiet_cons.2 ⟨rfl, quiet_nil⟩
  | flag f => exact quiet_cons.2 ⟨declaration?_eq_none (by simp [startsQuiet]), quiet_nil⟩
  | field f =>
    refine quiet_cons.2 ⟨rfl, quiet_cons.2 ⟨declaration?_indented_eq_none.2 ?_, by decide⟩⟩
    exact declaration?_eq_none (by simp [startsQuiet])
  | normal fields =>
    refine quiet_cons.2 ⟨rfl, quiet_cons.2 ⟨declaration?_indented_eq_none.2 ?_, by decide⟩⟩
    exact declaration?_eq_none (by simp [startsQuiet])

theorem quiet_chainLines (e : Endpoint) (dialect : Dialect) (rs : List Response) :
    Quiet (chainLines e dialect rs) := by
  have htest : ∀ status, declaration? (testLine status) = none ∧
      declaration? ("\x7d else " ++ testLine status) = none := by
    intro status
    delta testLine
    constructor
    · exact declaration?_eq_none (by simp [startsQuiet])
    · exact declaration?_eq_none (by simp [startsQuiet])
  cases rs with
  | nil => exact quiet_nil
  | cons r rs =>
    simp only [chainLines, List.cons_append, quiet_cons, quiet_append, quiet_flatMap,
      quiet_map_indented, htest, quiet_decodingLines, implies_true, true_and]
    exact ⟨rfl, quiet_nil⟩

theorem declarations_overlayLines (e : Endpoint) (dialect : Dialect) :
    declarations (overlayLines e dialect) =
      if (readHeaders e).isEmpty then [] else [(0, "headerValue")] := by
  have hlet : declaration? ("let headerValue" ++ dialect.onlyTyped ": string | null" ++ ";") =
      some (0, "headerValue") :=
    @declaration?_typed "let " "headerValue" (by simp) (by decide) dialect "string | null" _
      (by decide)
  have hheaders : Quiet ((readHeaders e).flatMap (responseHeaderLines dialect)) := by
    rw [quiet_flatMap]
    intro s _
    have hassign : startsQuiet (propertyAccess "value" s.name ++ " = " ++
        s.kind.ofText dialect "headerValue" ++ ";") := by
      rw [String.append_assoc, String.append_assoc]
      exact startsQuiet_access (by simp) _ _
    refine quiet_cons.2 ⟨declaration?_eq_none (by simp [startsQuiet]), quiet_cons.2 ⟨rfl, ?_⟩⟩
    exact quiet_cons.2 ⟨declaration?_indented_eq_none.2 (declaration?_eq_none hassign), by decide⟩
  unfold overlayLines
  split_ifs
  · rfl
  · rw [declarations_cons, declarations_cons, hlet, hheaders.declarations_eq]
    rfl

theorem declarations_statusLines (e : Endpoint) (dialect : Dialect) :
    declarations (statusLines e dialect) = [(0, "status"), (0, "value")] := by
  have hstatus : declaration? "const status = result.response.status;" = some (0, "status") := rfl
  have hvalue : declaration? ("let value" ++
      dialect.onlyTyped (": " ++ e.responseType ++ " | null") ++ " = null;") =
        some (0, "value") := by
    rw [@String.append_assoc ": " e.responseType " | null"]
    exact @declaration?_typed "let " "value" (by simp) (by decide) dialect _ _ (by decide)
  rw [statusLines, declarations_cons, hstatus, declarations_cons, hvalue]
  rfl

theorem quiet_failureLines (e : Endpoint) (dialect : Dialect) : Quiet (failureLines e dialect) := by
  refine quiet_cons.2 ⟨rfl, quiet_cons.2 ⟨declaration?_indented_eq_none.2 ?_, by decide⟩⟩
  exact declaration?_eq_none (by simp [startsQuiet])

theorem declarations_dispatchLines (e : Endpoint) (dialect : Dialect) :
    declarations (dispatchLines e dialect) = [(1, "status"), (1, "value")] ++
      if (readHeaders e).isEmpty then [] else [(1, "headerValue")] := by
  have htransport : declaration? transportLine = none := rfl
  have hclose : declarations ["\x7d);"] = [] := rfl
  have hblank : declaration? "" = none := rfl
  have hreturn : declarations ["", "return \x7b value: value \x7d;"] = [] := rfl
  have hchain := (quiet_chainLines e dialect e.responses).declarations_eq
  have hfailure := (quiet_failureLines e dialect).declarations_eq
  simp only [dispatchLines, List.cons_append, declarations_cons, declarations_append,
    declarations_indented, declarations_statusLines, declarations_overlayLines, htransport, hchain,
    hblank, hfailure, hreturn, hclose]
  split_ifs <;> rfl

/-- The variables of a method besides those of its path fields. -/
def fixedDeclarations (e : Endpoint) : List (ℕ × String) :=
  (0, "uri") :: (if e.queryFields.isEmpty then [] else [(0, "query")]) ++
    (0, "fetchRequest") :: (1, "status") :: (1, "value") ::
    if (readHeaders e).isEmpty then [] else [(1, "headerValue")]

/-- The variables that the body of a method declares. -/
theorem declarations_bodyLines (e : Endpoint) (dialect : Dialect) :
    declarations (bodyLines e dialect) =
      e.pathFields.map (fun s => (0, uriVariable s.name)) ++ fixedDeclarations e := by
  simp only [bodyLines, declarations_append, declarations_guards, declarations_bodyGuardLines,
    declarations_cons, declaration?_uriLine, declarations_queryLines, declarations_requestLines,
    declarations_dispatchLines, fixedDeclarations]
  simp

/-! ## Variables that clash -/

theorem nodup_fixedDeclarations (e : Endpoint) : (fixedDeclarations e).Nodup := by
  unfold fixedDeclarations
  split_ifs <;> decide

theorem uriVariable_not_mem_fixedDeclarations (e : Endpoint) (name : String) :
    (0, uriVariable name) ∉ fixedDeclarations e := by
  have huri : uriVariable name ≠ "uri" := uriVariable_ne (by decide)
  have hquery : uriVariable name ≠ "query" := uriVariable_ne (by decide)
  have hrequest : uriVariable name ≠ "fetchRequest" := uriVariable_ne (by decide)
  unfold fixedDeclarations
  split_ifs <;> simp [huri, hquery, hrequest]

/-- The variables of a method are distinct if those of its path fields are. -/
theorem nodup_declarations_iff (e : Endpoint) (dialect : Dialect) :
    (declarations (bodyLines e dialect)).Nodup ↔
      (e.pathFields.map fun s => uriVariable s.name).Nodup := by
  have hmap : e.pathFields.map (fun s => (0, uriVariable s.name)) =
      (e.pathFields.map fun s => uriVariable s.name).map (Prod.mk 0) := by
    rw [List.map_map]
    rfl
  -- The other variables are distinct and none of them starts with `uriPart`.
  rw [declarations_bodyLines, hmap, List.nodup_append', and_iff_left]
  · exact List.nodup_map_iff (Prod.mk_right_injective 0)
  · refine ⟨nodup_fixedDeclarations e, ?_⟩
    rw [List.disjoint_left]
    intro x hx
    obtain ⟨name, hname, rfl⟩ := List.mem_map.1 hx
    obtain ⟨s, -, rfl⟩ := List.mem_map.1 hname
    exact uriVariable_not_mem_fixedDeclarations e s.name

/-- The variable of each path field is an identifier and no reserved word. The variables of the path
fields are distinct, and with them all variables that a method declares at one depth, exactly if no
name of a path field is that of another with its first letter in upper case. -/
theorem variables_distinct_iff {d : Service.Document} {api : HttpStubs.Api}
    (h : Api.ofDocument d = .ok api) {e : Endpoint} (he : e ∈ api.endpoints) :
    (∀ s ∈ e.pathFields,
        isBareName (uriVariable s.name) ∧ uriVariable s.name ∉ reservedWords) ∧
      ((e.pathFields.map fun s => uriVariable s.name).Nodup ↔
        ∀ s ∈ e.pathFields, ∀ t ∈ e.pathFields, ¬Capitalizes s.name t.name) ∧
      ∀ dialect, ∃ front body,
        methodLines dialect e = front ++ indented 1 (methodHead e dialect ++ " \x7b") :: body ++
          [indented 1 "\x7d"] ∧
        declarations body = e.pathFields.map (fun s => (2, uriVariable s.name)) ++
          (fixedDeclarations e).map (deepen 2) ∧
        ((declarations body).Nodup ↔
          ∀ s ∈ e.pathFields, ∀ t ∈ e.pathFields, ¬Capitalizes s.name t.name) := by
  obtain ⟨b, -, hres⟩ := Api.resolved_of_mem_endpoints h he
  have hvariables : (e.pathFields.map fun s => uriVariable s.name).Nodup ↔
      ∀ s ∈ e.pathFields, ∀ t ∈ e.pathFields, ¬Capitalizes s.name t.name := by
    have hiff := nodup_uriVariable_iff hres.nodup_pathFields fun name hname =>
      Api.PathTemplate.identifier_of_parse hres.path hname
    rw [List.map_map] at hiff
    simpa [Function.comp_def] using hiff
  refine ⟨fun s _ => ⟨isBareName_uriVariable s.name, uriVariable_not_mem_reservedWords s.name⟩,
    hvariables, fun dialect => ⟨_, _, methodLines_eq dialect e, ?_, ?_⟩⟩
  · rw [declarations_indented, declarations_bodyLines, List.map_append, List.map_map]
    rfl
  · rw [declarations_indented, List.nodup_map_iff deepen_injective, nodup_declarations_iff,
      hvariables]

theorem file_variables_distinct :
    Api.ofDocument (Server.pathDocument ["kind", "id"] "files/\x7bkind\x7d\x7bid\x7d.json") =
        .ok (Server.pathApi ["kind", "id"] Server.filePath) ∧
      ∀ dialect, ∃ front body,
        methodLines dialect (Server.pathEndpoint ["kind", "id"] Server.filePath) = front ++
          indented 1 (methodHead (Server.pathEndpoint ["kind", "id"] Server.filePath) dialect ++
            " \x7b") :: body ++ [indented 1 "\x7d"] ∧
        declarations body =
          [(2, "uriPartKind"), (2, "uriPartId"), (2, "uri"), (2, "fetchRequest"), (3, "status"),
            (3, "value")] ∧
        (declarations body).Nodup := by
  have h : Api.ofDocument (Server.pathDocument ["kind", "id"]
      "files/\x7bkind\x7d\x7bid\x7d.json") = .ok (Server.pathApi ["kind", "id"] Server.filePath) :=
    rfl
  have he : Server.pathEndpoint ["kind", "id"] Server.filePath ∈
      (Server.pathApi ["kind", "id"] Server.filePath).endpoints := List.mem_cons_self
  obtain ⟨-, hvariables, hmethod⟩ := variables_distinct_iff h he
  refine ⟨h, fun dialect => ?_⟩
  obtain ⟨front, body, hlines, hdeclared, hdistinct⟩ := hmethod dialect
  exact ⟨front, body, hlines, hdeclared, hdistinct.2 (hvariables.1 (by decide))⟩

/-- Two path fields with names that differ in the case of the first letter. -/
def clashingPath : List Api.PathPart :=
  [.text "/widgets/", .capture (Server.textSlot "id"), .text "/", .capture (Server.textSlot "Id")]

/-- The method declares the variable `uriPartId` twice. -/
theorem id_declared_twice :
    Api.ofDocument (Server.pathDocument ["id", "Id"] "/widgets/\x7bid\x7d/\x7bId\x7d") =
        .ok (Server.pathApi ["id", "Id"] clashingPath) ∧
      ∀ dialect, declarations ((bodyLines (Server.pathEndpoint ["id", "Id"] clashingPath)
          dialect).map (indented 2)) =
        [(2, "uriPartId"), (2, "uriPartId"), (2, "uri"), (2, "fetchRequest"), (3, "status"),
          (3, "value")] := by
  refine ⟨rfl, fun dialect => ?_⟩
  rw [declarations_indented, declarations_bodyLines]
  rfl

end Stub.Client

end HttpStubs
