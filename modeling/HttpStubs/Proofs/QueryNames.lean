import Mathlib.Algebra.Ring.Nat
import Mathlib.Data.List.Basic
import HttpStubs.Proofs.LiteralReading
import HttpStubs.Proofs.Traversal
import HttpStubs.Stub.Artifact

/-!
# Names in the query

The client writes the name of a query field into a literal and puts the escaped value behind it; the
server looks the value up under the name. A query with unescaped names is read back exactly if every
name stands for itself (`Query.IsPlain`), that is, has neither separators nor escapes
(`Query.parse_render_iff`); the names that client and server use are read from the emitted code.
-/

namespace HttpStubs

open Code
open Api (Endpoint Slot)

namespace Query

/-! ## Percent-encoding -/

/-- The bytes of a text. -/
def utf8 (cs : List Char) : List UInt8 :=
  cs.flatMap String.utf8EncodeChar

/-- The value of a hexadecimal digit. -/
def hexValue? (c : Char) : Option UInt8 :=
  if '0' ≤ c ∧ c ≤ '9' then some (c.toUInt8 - 48)
  else if 'a' ≤ c ∧ c ≤ 'f' then some (c.toUInt8 - 87)
  else if 'A' ≤ c ∧ c ≤ 'F' then some (c.toUInt8 - 55)
  else none

/-- The byte that two hexadecimal digits stand for. -/
def byte? (a b : Char) : Option UInt8 :=
  (hexValue? a).bind fun high => (hexValue? b).map (16 * high + ·)

/-- The bytes of a text in which escapes stand for bytes. -/
def percentDecode : List Char → List UInt8
  | [] => []
  | '%' :: a :: b :: cs =>
    match byte? a b with
    | some byte => byte :: percentDecode cs
    | none => String.utf8EncodeChar '%' ++ percentDecode (a :: b :: cs)
  | c :: cs => String.utf8EncodeChar c ++ percentDecode cs

/-- Whether an escape occurs. -/
def hasEscape : List Char → Bool
  | [] => false
  | '%' :: a :: b :: cs => (byte? a b).isSome || hasEscape (a :: b :: cs)
  | _ :: cs => hasEscape cs

theorem utf8_cons (c : Char) (cs : List Char) :
    utf8 (c :: cs) = String.utf8EncodeChar c ++ utf8 cs :=
  List.flatMap_cons

theorem length_utf8_cons (c : Char) (cs : List Char) :
    (utf8 cs).length < (utf8 (c :: cs)).length := by
  have hpos := c.utf8Size_pos
  rw [utf8_cons, List.length_append, String.length_utf8EncodeChar]
  omega

theorem length_percentDecode_le (cs : List Char) :
    (percentDecode cs).length ≤ (utf8 cs).length := by
  fun_induction percentDecode cs with
  | case1 => exact Nat.le_refl 0
  | case2 a b cs byte hbyte ih =>
    have ha := length_utf8_cons a (b :: cs)
    have hb := length_utf8_cons b cs
    have hpercent := length_utf8_cons '%' (a :: b :: cs)
    rw [List.length_cons]
    omega
  | case3 a b cs hbyte ih =>
    rw [utf8_cons, List.length_append, List.length_append]
    omega
  | case4 c cs hc ih =>
    rw [utf8_cons, List.length_append, List.length_append]
    omega

theorem hasEscape_cons {c : Char} {cs : List Char}
    (h : ∀ a b rest, c = '%' → cs = a :: b :: rest → False) :
    hasEscape (c :: cs) = hasEscape cs := by
  rw [hasEscape]
  exact h

theorem percentDecode_of_not_hasEscape {cs : List Char} (h : hasEscape cs = false) :
    percentDecode cs = utf8 cs := by
  fun_induction percentDecode cs with
  | case1 => rfl
  | case2 a b cs byte hbyte ih => simp [hasEscape, hbyte] at h
  | case3 a b cs hbyte ih =>
    rw [hasEscape, Bool.or_eq_false_iff] at h
    rw [utf8_cons, ih h.2]
  | case4 c cs hc ih =>
    rw [hasEscape_cons hc] at h
    rw [utf8_cons, ih h]

theorem length_percentDecode_lt {cs : List Char} (h : hasEscape cs = true) :
    (percentDecode cs).length < (utf8 cs).length := by
  fun_induction percentDecode cs with
  | case1 => cases h
  | case2 a b cs byte hbyte ih =>
    have hle := length_percentDecode_le cs
    have ha := length_utf8_cons a (b :: cs)
    have hb := length_utf8_cons b cs
    have hpercent := length_utf8_cons '%' (a :: b :: cs)
    rw [List.length_cons]
    omega
  | case3 a b cs hbyte ih =>
    have hrest : hasEscape (a :: b :: cs) = true := by simpa [hasEscape, hbyte] using h
    have hlt := ih hrest
    rw [utf8_cons, List.length_append, List.length_append]
    omega
  | case4 c cs hc ih =>
    rw [hasEscape_cons hc] at h
    have hlt := ih h
    rw [utf8_cons, List.length_append, List.length_append]
    omega

/-- Decoding leaves exactly the texts without escapes as they are. -/
theorem percentDecode_eq_utf8_iff (cs : List Char) :
    percentDecode cs = utf8 cs ↔ hasEscape cs = false := by
  refine ⟨fun h => ?_, percentDecode_of_not_hasEscape⟩
  by_contra hescape
  have hlt := length_percentDecode_lt (Bool.of_not_eq_false hescape)
  rw [h] at hlt
  exact Nat.lt_irrefl _ hlt

/-! ## Parsing -/

/-- The name and the value of a piece of a query, cut at the first equals sign. -/
def parsePair (cs : List Char) : List UInt8 × List UInt8 :=
  (percentDecode (cs.takeWhile (· ≠ '=')), percentDecode ((cs.dropWhile (· ≠ '=')).drop 1))

/-- The names and values of a query. -/
def parse (text : String) : List (List UInt8 × List UInt8) :=
  if text = "" then [] else (text.toList.splitOn '&').map parsePair

/-- A piece with an unescaped name. -/
def piece (name value : List Char) : List Char :=
  name ++ '=' :: value

theorem parsePair_piece {name : List Char} (h : '=' ∉ name) (value : List Char) :
    parsePair (piece name value) = (percentDecode name, percentDecode value) := by
  have hall : ∀ c ∈ name, decide (c ≠ '=') = true := by
    intro c hc
    rw [decide_eq_true_eq]
    rintro rfl
    exact h hc
  rw [parsePair, piece, List.takeWhile_append_of_pos hall, List.dropWhile_append_of_pos hall]
  simp

/-- A name with an equals sign is cut off, so that bytes are missing. -/
theorem length_parsePair_lt {name : List Char} (h : '=' ∈ name) (value : List Char) :
    (parsePair (piece name value)).1.length < (utf8 name).length := by
  obtain ⟨front, rest, rfl, hfront⟩ := List.eq_append_cons_of_mem h
  have hcut : piece (front ++ '=' :: rest) value = piece front (rest ++ '=' :: value) := by
    simp [piece]
  have hle := length_percentDecode_le front
  have hlt := length_utf8_cons '=' rest
  rw [hcut, parsePair_piece hfront, utf8, List.flatMap_append, List.length_append]
  simp only [utf8] at hle hlt ⊢
  omega

/-- Whether a name stands for itself in a query. -/
def IsPlain (name : String) : Prop :=
  '&' ∉ name.toList ∧ '=' ∉ name.toList ∧ hasEscape name.toList = false

instance (name : String) : Decidable (IsPlain name) :=
  inferInstanceAs (Decidable (_ ∧ _ ∧ _))

theorem parsePair_eq_iff (name value : List Char) :
    parsePair (piece name value) = (utf8 name, percentDecode value) ↔
      '=' ∉ name ∧ hasEscape name = false := by
  constructor
  · intro h
    have hequals : '=' ∉ name := by
      intro hmem
      have hlt := length_parsePair_lt hmem value
      rw [h] at hlt
      exact Nat.lt_irrefl _ hlt
    rw [parsePair_piece hequals, Prod.mk.injEq, percentDecode_eq_utf8_iff] at h
    exact ⟨hequals, h.1⟩
  · rintro ⟨hequals, hescape⟩
    rw [parsePair_piece hequals, percentDecode_of_not_hasEscape hescape]

theorem length_splitOn (a : Char) (cs : List Char) :
    (cs.splitOn a).length = cs.count a + 1 := by
  induction cs with
  | nil => rfl
  | cons c cs ih =>
    rw [List.splitOn_cons_eq_if_modifyHead, List.count_cons]
    split_ifs with h
    · rw [List.length_cons, ih]
    · rw [List.length_modifyHead, ih]

theorem count_intercalate (a : Char) (first : List Char) (rest : List (List Char)) :
    ([a].intercalate (first :: rest)).count a =
      rest.length + ((first :: rest).map (List.count a)).sum := by
  induction rest generalizing first with
  | nil => simp
  | cons second rest ih =>
    rw [List.intercalate_cons_cons, List.count_append, List.count_append, ih]
    simp
    omega

/-- The pieces come back exactly if none of them holds the separator. -/
theorem length_splitOn_intercalate_iff {a : Char} {pieces : List (List Char)} (h : pieces ≠ []) :
    (([a].intercalate pieces).splitOn a).length = pieces.length ↔ ∀ p ∈ pieces, a ∉ p := by
  cases pieces with
  | nil => exact absurd rfl h
  | cons first rest =>
    have hsum : ((first :: rest).map (List.count a)).sum = 0 ↔ ∀ p ∈ first :: rest, a ∉ p := by
      rw [List.sum_eq_zero_iff_forall_eq_nat]
      simp [List.count_eq_zero]
    rw [length_splitOn, count_intercalate, List.length_cons, ← hsum]
    omega

/-- The text of a query with unescaped names. -/
def render (pairs : List (String × String)) : String :=
  "&".intercalate (pairs.map fun p => p.1 ++ "=" ++ p.2)

theorem toList_render (pairs : List (String × String)) :
    (render pairs).toList = ['&'].intercalate (pairs.map fun p => piece p.1.toList p.2.toList) := by
  rw [render, String.toList_intercalate, List.map_map]
  congr 1
  refine List.map_congr_left fun p _ => ?_
  simp [piece]

theorem render_ne_empty {pairs : List (String × String)} (h : pairs ≠ []) : render pairs ≠ "" := by
  cases pairs with
  | nil => exact absurd rfl h
  | cons p pairs =>
    intro heq
    have htext := toList_render (p :: pairs)
    rw [heq] at htext
    cases pairs <;> simp [piece, List.intercalate_cons_cons] at htext

/-- The names and values come back exactly if the names stand for themselves. -/
theorem parse_render_iff {pairs : List (String × String)}
    (values : ∀ p ∈ pairs, '&' ∉ p.2.toList) :
    parse (render pairs) = pairs.map (fun p => (utf8 p.1.toList, percentDecode p.2.toList)) ↔
      ∀ p ∈ pairs, IsPlain p.1 := by
  by_cases hpairs : pairs = []
  · subst hpairs
    simp [render, parse]
  have hpieces : pairs.map (fun p => piece p.1.toList p.2.toList) ≠ [] := by simpa using hpairs
  have hseparator : (∀ p ∈ pairs.map (fun p => piece p.1.toList p.2.toList), '&' ∉ p) ↔
      ∀ p ∈ pairs, '&' ∉ p.1.toList := by
    simp only [List.forall_mem_map, piece, List.mem_append, List.mem_cons, not_or]
    exact forall₂_congr fun p hp => by simp [values p hp]
  -- Without separators in the names each piece is read on its own.
  have hpairwise : (∀ p ∈ pairs, '&' ∉ p.1.toList) →
      (parse (render pairs) =
          pairs.map (fun p => (utf8 p.1.toList, percentDecode p.2.toList)) ↔
        ∀ p ∈ pairs, '=' ∉ p.1.toList ∧ hasEscape p.1.toList = false) := by
    intro hnames
    rw [parse, if_neg (render_ne_empty hpairs), toList_render,
      List.splitOn_intercalate _ (hseparator.2 hnames) hpieces, List.map_map, List.map_inj_left]
    exact forall₂_congr fun p _ => parsePair_eq_iff p.1.toList p.2.toList
  constructor
  · -- A separator in a name makes more pieces than there are pairs.
    intro h
    have hlength := congrArg List.length h
    rw [parse, if_neg (render_ne_empty hpairs), List.length_map, List.length_map, toList_render,
      ← List.length_map (fun p : String × String => piece p.1.toList p.2.toList),
      length_splitOn_intercalate_iff hpieces, hseparator] at hlength
    exact fun p hp => ⟨hlength p hp, (hpairwise hlength).1 h p hp⟩
  · intro h
    exact (hpairwise fun p hp => (h p hp).1).2 fun p hp => (h p hp).2

/-- Whether each percent sign starts an escape. -/
def wellEscaped : List Char → Bool
  | [] => true
  | '%' :: a :: b :: cs => (byte? a b).isSome && wellEscaped cs
  | c :: cs => c != '%' && wellEscaped cs

/-- A text that is percent-encoded: no character has a meaning in a query, and each percent sign
starts an escape. -/
def IsEncoded (text : String) : Prop :=
  (∀ c ∈ text.toList, c ∉ ['&', '=', '#', '+']) ∧ wellEscaped text.toList

instance (text : String) : Decidable (IsEncoded text) :=
  inferInstanceAs (Decidable (_ ∧ _))

end Query

/-! ## The emitted code -/

namespace Stub

/-- The text that a step adds to the query, in front of the value of the slot. -/
def Client.pushedText? (s : Slot) : Step → Option String
  | .line text => do
    let cs ← after? (requestField s.name ++ " == null || query.push(") text
    let (pushed, rest) ← readLiteral cs
    if rest = (" + " ++ s.kind.toUri (requestField s.name) ++ ");").toList then some pushed
    else none
  | _ => none

/-- The name under which a step looks up the value of the slot in the query. -/
def Server.lookedUp? (dialect : Dialect) (s : Slot) : Step → Option String
  | .block opening _ [.line text] => do
    let cs ← after? "if (typeof req.query[" opening
    let (name, rest) ← readLiteral cs
    let value := "req.query[" ++ literal name ++ "]"
    if rest = "] === 'string') \x7b".toList ∧
        text = requestField s.name ++ " = " ++ s.kind.ofText dialect value ++ ";" then some name
    else none
  | _ => none

theorem Client.pushedText?_queryStep (s : Slot) :
    pushedText? s (queryStep s) = some (s.wire ++ "=") := by
  have htext : queryStep s = .line ((requestField s.name ++ " == null || query.push(") ++
      (literal (s.wire ++ "=") ++ (" + " ++ s.kind.toUri (requestField s.name) ++ ");"))) := by
    simp [queryStep, String.append_assoc]
  rw [htext, pushedText?, after?_append, String.toList_append]
  simp [readLiteral_literal]

theorem Server.lookedUp?_queryStep (dialect : Dialect) (s : Slot) :
    lookedUp? dialect s (queryStep dialect s) = some s.wire := by
  have htext : "if (typeof " ++ ("req.query[" ++ literal s.wire ++ "]") ++ " === 'string')" ++
      " \x7b" = "if (typeof req.query[" ++ (literal s.wire ++ "] === 'string') \x7b") := by
    rw [← String.toList_inj]
    simp
  rw [queryStep, Step.braces, htext, lookedUp?, after?_append, String.toList_append]
  simp only [Option.bind_eq_bind, Option.bind_some, readLiteral_literal, and_self, if_true]

/-- The query that the emitted client builds from the fields that have a value. -/
def Client.queryText? (present : List (Slot × String)) : Option String :=
  (present.mapM fun p => (pushedText? p.1 (queryStep p.1)).map (· ++ p.2)).map
    fun pieces => "&".intercalate pieces

/-- The names that the emitted server looks up for these fields, with the values it should get. -/
def Server.expectedQuery? (dialect : Dialect) (present : List (Slot × String)) :
    Option (List (List UInt8 × List UInt8)) :=
  present.mapM fun p => (lookedUp? dialect p.1 (queryStep dialect p.1)).map fun name =>
    (Query.utf8 name.toList, Query.percentDecode p.2.toList)

theorem Client.queryText?_eq (present : List (Slot × String)) :
    queryText? present = some (Query.render (present.map fun p => (p.1.wire, p.2))) := by
  have hpieces : present.mapM (fun p => some (p.1.wire ++ "=" ++ p.2)) =
      some (present.map fun p => p.1.wire ++ "=" ++ p.2) := List.mapM_pure
  simp only [queryText?, pushedText?_queryStep, Option.map_some, hpieces]
  simp [Query.render, Function.comp_def]

theorem Server.expectedQuery?_eq (dialect : Dialect) (present : List (Slot × String)) :
    expectedQuery? dialect present = some (present.map fun p =>
      (Query.utf8 p.1.wire.toList, Query.percentDecode p.2.toList)) := by
  simp only [expectedQuery?, lookedUp?_queryStep, Option.map_some]
  exact List.mapM_pure

theorem Client.queryStep_mem_uriSteps {e : Endpoint} {s : Slot} (hs : s ∈ e.queryFields)
    (dialect : Dialect) : queryStep s ∈ uriSteps e dialect := by
  have hne : e.queryFields.isEmpty = false := by
    rw [List.isEmpty_eq_false_iff]
    exact List.ne_nil_of_mem hs
  simp only [uriSteps, hne, Bool.false_eq_true, if_false, List.mem_append]
  exact .inl (.inr (List.mem_map_of_mem hs))

theorem Server.queryStep_mem_requestSteps {e : Endpoint} {s : Slot} (hs : s ∈ e.queryFields)
    (dialect : Dialect) : queryStep dialect s ∈ requestSteps e dialect := by
  simp only [requestSteps, List.mem_append]
  exact .inl (.inl (.inr (List.mem_map_of_mem hs)))

/-- The query that the client builds gives the server the names that it looks up and the values,
exactly if each name stands for itself: the client escapes the values and not the names. -/
theorem query_read_back_iff {e : Endpoint} {present : List (Slot × String)}
    (fields : (present.map (·.1)).Sublist e.queryFields)
    (encoded : ∀ p ∈ present, Query.IsEncoded p.2) (dialect : Dialect) :
    (∀ p ∈ present, Client.queryStep p.1 ∈ Client.uriSteps e dialect ∧
        Server.queryStep dialect p.1 ∈ Server.requestSteps e dialect) ∧
      ∃ text expected, Client.queryText? present = some text ∧
        Server.expectedQuery? dialect present = some expected ∧
        expected.map (·.1) = present.map (fun p => Query.utf8 p.1.wire.toList) ∧
        (Query.parse text = expected ↔ ∀ p ∈ present, Query.IsPlain p.1.wire) := by
  refine ⟨fun p hp => ?_, _, _, Client.queryText?_eq present,
    Server.expectedQuery?_eq dialect present, ?_, ?_⟩
  · have hfield : p.1 ∈ e.queryFields := fields.mem (List.mem_map_of_mem hp)
    exact ⟨Client.queryStep_mem_uriSteps hfield dialect,
      Server.queryStep_mem_requestSteps hfield dialect⟩
  · rw [List.map_map]
    rfl
  · have hvalues : ∀ p ∈ present.map (fun p => (p.1.wire, p.2)), '&' ∉ p.2.toList := by
      rw [List.forall_mem_map]
      intro p hp hmem
      exact (encoded p hp).1 '&' hmem (by decide)
    have hparse := Query.parse_render_iff hvalues
    rw [List.map_map, List.forall_mem_map] at hparse
    exact hparse

/-! ## Names that stand for themselves, and a name that does not -/

def filterField : Service.Field where
  name := "filter"
  type := .string

def filterSlot (wire : String) : Slot where
  field := filterField
  wire := wire
  kind := .string

/-- A document with a query field of some name. -/
def filterDocument (wire : String) : Service.Document where
  service := {
    name := "Widgets"
    methods := [{ name := "getWidgets", requestFields := [filterField] }] }
  http := {
    methods := [{
      name := "getWidgets"
      verb := .get
      path := "/widgets"
      queryFields := [⟨"filter", wire⟩] }] }

def filterEndpoint (wire : String) : Endpoint where
  method := { name := "getWidgets", requestFields := [filterField] }
  verb := .get
  path := [.text "/widgets"]
  pathFields := []
  queryFields := [filterSlot wire]
  requestHeaderFields := []
  requestBody := .none
  responseHeaderFields := []
  responses := []

/-- A name with a space, quotes and a percent sign that starts no escape, and the value `a&b=c`. -/
theorem filter_read_back :
    ∃ text expected, Client.queryText? [(filterSlot "50% 'off'", "a%26b%3Dc")] = some text ∧
      Server.expectedQuery? .typeScript [(filterSlot "50% 'off'", "a%26b%3Dc")] = some expected ∧
      Query.parse text = expected := by
  have hfields : ([(filterSlot "50% 'off'", "a%26b%3Dc")].map (·.1)).Sublist
      (filterEndpoint "50% 'off'").queryFields := List.Sublist.refl _
  have hvalue : Query.IsEncoded "a%26b%3Dc" := ⟨by simp, by decide⟩
  have hencoded : ∀ p ∈ [(filterSlot "50% 'off'", "a%26b%3Dc")], Query.IsEncoded p.2 :=
    List.forall_mem_singleton.2 hvalue
  obtain ⟨-, text, expected, htext, hexpected, -, hiff⟩ :=
    query_read_back_iff hfields hencoded .typeScript
  refine ⟨text, expected, htext, hexpected, hiff.2 ?_⟩
  rw [List.forall_mem_singleton]
  decide

/-- A name with a separator is accepted, and read as two names that nobody looks up. -/
theorem separator_in_name_lost :
    (filterDocument "a&b").check = .ok () ∧
      Api.ofDocument (filterDocument "a&b") =
        .ok ⟨(filterDocument "a&b").service, none, [filterEndpoint "a&b"]⟩ ∧
      ∃ text expected, Client.queryText? [(filterSlot "a&b", "c")] = some text ∧
        Server.expectedQuery? .typeScript [(filterSlot "a&b", "c")] = some expected ∧
        Query.parse text =
          [(Query.utf8 "a".toList, []), (Query.utf8 "b".toList, Query.utf8 "c".toList)] ∧
        Query.parse text ≠ expected := by
  refine ⟨rfl, rfl, _, _, Client.queryText?_eq _, Server.expectedQuery?_eq _ _, ?_, ?_⟩
  · decide
  · decide

end Stub

end HttpStubs
