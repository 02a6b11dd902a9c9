import Mathlib.Data.List.Infix
import Mathlib.Data.List.Nodup
import Mathlib.Data.List.Pairwise
import HttpStubs.Proofs.PropertyNames
import HttpStubs.Proofs.Resolution
import HttpStubs.Stub.Client
import HttpStubs.Stub.Server

/-!
# Dispatch of responses

The server sends the first valid response that the result satisfies, and stops writing cases at the
first that fits every result. The client decodes by status alone, along one chain of branches. Both
are read here from the emitted steps: `Server.WritesCase` says for which responses a case is
written, and `Client.emittedChain` is the chain. The first branch for a status belongs to the first
valid response with that status. It is the branch of a response exactly if no earlier response has
its status, and it decodes the response as it should exactly if the first response with the status
has the same shape.
-/

namespace HttpStubs.Stub

open Api (Endpoint Response ResponseBody)
open Code (Dialect Step)

/-! ## The chain of the client -/

namespace Client

/-- Whether a step continues a chain of branches. -/
def isChainStep : Step → Bool
  | .chain .. => true
  | _ => false

/-- The first chain of branches after plain lines. -/
def leadingChain : List Step → List Step
  | .line _ :: steps => leadingChain steps
  | .block opening closing body :: steps =>
    .block opening closing body :: steps.takeWhile isChainStep
  | _ => []

/-- The chain of branches in what an endpoint does with a response. -/
def emittedChain (e : Endpoint) (dialect : Dialect) : List Step :=
  match dispatch e dialect with
  | [.block _ _ steps] => leadingChain steps
  | _ => []

/-- Whether a branch is taken for a status that no earlier branch of its chain is taken for. -/
def testsStatus (status : UInt16) : Step → Bool
  | .block opening _ _ => opening == "if (status === " ++ status.toNat.repr ++ ") \x7b"
  | .chain opening _ _ => opening == "else if (status === " ++ status.toNat.repr ++ ") \x7b"
  | _ => false

/-- What a branch does. -/
def branchBody : Step → List Step
  | .block _ _ body | .chain _ _ body => body
  | _ => []

theorem emittedChain_eq (e : Endpoint) (dialect : Dialect) :
    emittedChain e dialect = statusChain e dialect e.responses := by
  unfold emittedChain dispatch
  simp only [List.cons_append, leadingChain]
  cases e.responses with
  | nil => rfl
  | cons r rs =>
    simp only [statusChain, List.cons_append, leadingChain, List.cons.injEq, true_and]
    rw [List.append_assoc, List.append_assoc, List.takeWhile_append_of_pos (by simp [isChainStep])]
    exact List.append_nil _

theorem statusTest_eq_iff {status : UInt16} {r : Response} :
    statusTest r = "if (status === " ++ status.toNat.repr ++ ") \x7b" ↔ r.status = status := by
  have hread :
      Function.LeftInverse (fun s : String => Nat.ofDigitChars 10 s.toList 0) Nat.repr := by
    intro n
    change Nat.ofDigitChars 10 n.repr.toList 0 = n
    rw [Nat.toList_repr, Nat.ofDigitChars_ten_toDigits]
  -- An equation for `statusTest` would be proved by comparing the texts byte by byte.
  delta statusTest
  rw [String.append_left_inj, String.append_right_inj, hread.injective.eq_iff, UInt16.toNat_inj]

theorem testsStatus_block {status : UInt16} {r : Response} {closing : String} {body : List Step} :
    testsStatus status (.block (statusTest r) closing body) = (r.status == status) := by
  rw [testsStatus, Bool.eq_iff_iff, beq_iff_eq, beq_iff_eq, statusTest_eq_iff]

theorem testsStatus_chain {status : UInt16} {r : Response} {closing : String} {body : List Step} :
    testsStatus status (.chain ("else " ++ statusTest r) closing body) = (r.status == status) := by
  have hsplit : "else if (status === " ++ status.toNat.repr ++ ") \x7b" =
      "else " ++ ("if (status === " ++ status.toNat.repr ++ ") \x7b") := by
    rw [← String.append_assoc, ← String.append_assoc]
    rfl
  rw [testsStatus, hsplit, Bool.eq_iff_iff, beq_iff_eq, beq_iff_eq, String.append_right_inj,
    statusTest_eq_iff]

/-- The first branch for a status is that of the first response with the status. -/
theorem findIdx_emittedChain (e : Endpoint) (dialect : Dialect) (status : UInt16) :
    (emittedChain e dialect).findIdx? (testsStatus status) =
      e.responses.findIdx? (·.status == status) := by
  rw [emittedChain_eq]
  cases e.responses with
  | nil => rfl
  | cons r rs =>
    rw [statusChain, List.findIdx?_cons, List.findIdx?_cons, testsStatus_block, List.findIdx?_map]
    simp only [Function.comp_def, testsStatus_chain]

/-- The branch of a response is the first for its status exactly if no earlier response has it. -/
theorem findIdx_emittedChain_eq_some_iff (dialect : Dialect) {e : Endpoint} {i : ℕ} {r : Response}
    (hr : e.responses[i]? = some r) :
    (emittedChain e dialect).findIdx? (testsStatus r.status) = some i ↔
      ∀ j < i, ∀ r', e.responses[j]? = some r' → r'.status ≠ r.status := by
  obtain ⟨hi, rfl⟩ := List.getElem?_eq_some_iff.1 hr
  rw [findIdx_emittedChain, List.findIdx?_eq_some_iff_getElem]
  constructor
  · rintro ⟨_, _, hearlier⟩ j hj r' hr'
    obtain ⟨hj', rfl⟩ := List.getElem?_eq_some_iff.1 hr'
    simpa using hearlier j hj
  · intro hearlier
    refine ⟨hi, by simp, fun j hj => ?_⟩
    simpa using hearlier j hj _ (List.getElem?_eq_getElem (by omega))

theorem map_branchBody_emittedChain (e : Endpoint) (dialect : Dialect) :
    (emittedChain e dialect).map branchBody =
      e.responses.map fun r => responseSteps e dialect r.body := by
  rw [emittedChain_eq]
  cases e.responses with
  | nil => rfl
  | cons r rs =>
    rw [statusChain, List.map_cons, List.map_map, List.map_cons]
    rfl

/-- What the client does for a status: the first branch for it. -/
def stepsFor (e : Endpoint) (dialect : Dialect) (status : UInt16) : Option (List Step) :=
  ((emittedChain e dialect).find? (testsStatus status)).map branchBody

theorem stepsFor_eq (e : Endpoint) (dialect : Dialect) (status : UInt16) :
    stepsFor e dialect status =
      (e.responses.find? (·.status == status)).map fun r => responseSteps e dialect r.body := by
  rw [stepsFor, emittedChain_eq]
  cases e.responses with
  | nil => rfl
  | cons r rs =>
    rw [statusChain, List.find?_cons, List.find?_cons, testsStatus_block, List.find?_map]
    simp only [Function.comp_def, testsStatus_chain]
    cases r.status == status with
    | true => rfl
    | false =>
      rw [Option.map_map]
      rfl

/-! ## The shapes that the client tells apart -/

/-- What the value of a response is made of: nothing, the name of a field that is true, the name of
the field that is sent, or the object that is sent. -/
inductive Shape where
  | empty
  | flag (name : String)
  | field (name : String)
  | normal
  deriving DecidableEq, Repr

/-- The shape of a response. -/
def shapeOf : ResponseBody → Shape
  | .empty => .empty
  | .flag f => .flag f.name
  | .field f => .field f.name
  | .normal _ => .normal

/-- Responses are decoded by the same steps exactly if they have the same shape: the steps tell the
kind of the body, and the name of its field is read off the key. -/
theorem responseSteps_eq_iff (e : Endpoint) (dialect : Dialect) (body other : ResponseBody) :
    responseSteps e dialect body = responseSteps e dialect other ↔
      shapeOf body = shapeOf other := by
  have hflag : ∀ rest : String, "value = \x7b\x7d;" ≠ "value = " ++ ("\x7b " ++ rest) := by
    intro rest h
    simpa using congrArg String.toList h
  have hfield : ∀ rest rest' : String,
      "value = result.json" ++ rest ≠ "value = " ++ ("\x7b " ++ rest') := by
    intro rest rest' h
    simpa using congrArg String.toList h
  have hflag' := fun rest => (hflag rest).symm
  have hfield' := fun rest rest' => (hfield rest rest').symm
  cases body <;> cases other <;>
    simp [responseSteps, shapeOf, Step.braces, Code.braced, String.append_assoc,
      Code.propertyKey_injective.eq_iff, hflag, hflag', hfield, hfield']

/-- A response is decoded as it should exactly if the first response with its status has its
shape. -/
theorem stepsFor_eq_some_iff (e : Endpoint) (dialect : Dialect) (r : Response) :
    stepsFor e dialect r.status = some (responseSteps e dialect r.body) ↔
      ∃ first, e.responses.find? (·.status == r.status) = some first ∧
        shapeOf first.body = shapeOf r.body := by
  rw [stepsFor_eq, Option.map_eq_some_iff]
  simp only [responseSteps_eq_iff]

end Client

/-! ## The cases of the server -/

namespace Server

/-- The steps for a result that has a value. -/
def valueSteps (e : Endpoint) : List Step :=
  match invokeSteps e with
  | [.block _ _ [_, .block _ _ steps, _]] => steps
  | _ => []

/-- The steps that send a response, after those that set headers. -/
def caseSteps (e : Endpoint) : List Step :=
  (valueSteps e).drop e.responseHeaderFields.length

/-- The cases of the responses up to index `i` are written. -/
def WritesCase (e : Endpoint) (i : ℕ) : Prop :=
  i < e.responses.length ∧ (e.responses.take (i + 1)).flatMap responseSteps <+: caseSteps e

theorem caseSteps_eq (e : Endpoint) :
    caseSteps e = (reachable e.responses).flatMap responseSteps := by
  change (e.responseHeaderFields.map responseHeaderStep ++ _).drop e.responseHeaderFields.length = _
  rw [List.drop_append_of_le_length (by simp), List.drop_eq_nil_of_le (by simp), List.nil_append]

theorem reachable_prefix_responses (rs : List Response) : reachable rs <+: rs := by
  induction rs with
  | nil => exact List.prefix_rfl
  | cons r rs ih =>
    rw [reachable]
    split_ifs
    · exact List.prefix_append [r] rs
    · exact List.cons_prefix_cons.2 ⟨rfl, ih⟩

theorem getElem?_reachable {rs : List Response} {i : ℕ} (hi : i < (reachable rs).length) :
    (reachable rs)[i]? = rs[i]? := by
  have hlen := (reachable_prefix_responses rs).length_le
  rw [List.getElem?_eq_getElem hi, List.getElem?_eq_getElem (by omega),
    (reachable_prefix_responses rs).getElem hi]

theorem exists_of_lt_reachable {rs : List Response} {i : ℕ} (hi : i < (reachable rs).length) :
    ∃ r, rs[i]? = some r := by
  rw [← getElem?_reachable hi]
  exact ⟨_, List.getElem?_eq_getElem hi⟩

theorem responseSteps_ne_nil (r : Response) : responseSteps r ≠ [] := by
  unfold responseSteps
  split <;> simp

/-- Written cases are told from unwritten ones by the number of steps, since no case is empty. -/
theorem take_cases_prefix_iff {shown rest : List Response} {i : ℕ}
    (hi : i < (shown ++ rest).length) :
    ((shown ++ rest).take (i + 1)).flatMap responseSteps <+: shown.flatMap responseSteps ↔
      i < shown.length := by
  constructor
  · intro hcases
    by_contra hge
    have hextra := hcases.length_le
    rw [List.take_append, List.take_of_length_le (by omega), List.flatMap_append,
      List.length_append] at hextra
    rw [List.length_append] at hi
    obtain ⟨r, rest, rfl⟩ := List.exists_cons_of_length_pos (show 0 < rest.length by omega)
    rw [show i + 1 - shown.length = i - shown.length + 1 by omega, List.take_succ_cons,
      List.flatMap_cons, List.length_append] at hextra
    have hpos := List.length_pos_of_ne_nil (responseSteps_ne_nil r)
    omega
  · intro hlt
    rw [List.take_append_of_le_length hlt]
    exact (List.take_prefix (i + 1) shown).flatMap responseSteps

theorem writesCase_iff {e : Endpoint} {i : ℕ} :
    WritesCase e i ↔ i < (reachable e.responses).length := by
  obtain ⟨rest, hrest⟩ := reachable_prefix_responses e.responses
  have hlen := congrArg List.length hrest
  rw [List.length_append] at hlen
  unfold WritesCase
  rw [caseSteps_eq]
  constructor
  · rintro ⟨hi, hcases⟩
    rw [← hrest] at hi
    refine (take_cases_prefix_iff hi).1 ?_
    rwa [hrest]
  · intro hi
    refine ⟨by omega, ?_⟩
    have hi' : i < (reachable e.responses ++ rest).length := by
      rw [List.length_append]
      omega
    have hcases := (take_cases_prefix_iff hi').2 hi
    rwa [hrest] at hcases

/-- What holds of all written cases holds of all reachable responses. -/
theorem forall_writesCase_iff {e : Endpoint} {p : Response → Prop} :
    (∀ i r, WritesCase e i → e.responses[i]? = some r → p r) ↔
      ∀ r ∈ reachable e.responses, p r := by
  simp only [writesCase_iff]
  constructor
  · intro h r hr
    obtain ⟨i, hi, rfl⟩ := List.mem_iff_getElem.1 hr
    refine h i _ hi ?_
    rw [← getElem?_reachable hi, List.getElem?_eq_getElem hi]
  · intro h i r hi hr
    rw [← getElem?_reachable hi] at hr
    exact h r (List.mem_of_getElem? hr)

/-- The first response with the status of a reachable one is reachable. -/
theorem exists_first {rs : List Response} {r : Response} (hr : r ∈ reachable rs) :
    ∃ first ∈ reachable rs, first.status = r.status ∧
      rs.find? (·.status == r.status) = some first := by
  obtain ⟨first, hfirst⟩ : ∃ first, (reachable rs).find? (·.status == r.status) = some first := by
    rw [← Option.isSome_iff_exists, List.find?_isSome]
    exact ⟨r, hr, by simp⟩
  refine ⟨first, List.mem_of_find?_eq_some hfirst, by simpa using List.find?_some hfirst, ?_⟩
  obtain ⟨rest, hrest⟩ := reachable_prefix_responses rs
  rw [← hrest, List.find?_append, hfirst, Option.some_or]

end Server

/-! ## Agreement -/

/-- Every reachable response is decoded as it should exactly if those with one status have one
shape. -/
theorem forall_stepsFor_eq_iff (e : Endpoint) (dialect : Dialect) :
    (∀ r ∈ Server.reachable e.responses,
        Client.stepsFor e dialect r.status = some (Client.responseSteps e dialect r.body)) ↔
      (Server.reachable e.responses).Pairwise fun a b =>
        a.status = b.status → Client.shapeOf a.body = Client.shapeOf b.body := by
  simp only [Client.stepsFor_eq_some_iff]
  constructor
  · intro h
    refine List.pairwise_of_forall_mem_list fun a ha b hb hstatus => ?_
    obtain ⟨first, hfirst, hshape⟩ := h a ha
    obtain ⟨first', hfirst', hshape'⟩ := h b hb
    rw [← hstatus, hfirst] at hfirst'
    cases hfirst'
    exact hshape.symm.trans hshape'
  · intro h r hr
    obtain ⟨first, hmem, hstatus, hfirst⟩ := Server.exists_first hr
    have hsymm : Std.Symm fun a b : Response =>
        a.status = b.status → Client.shapeOf a.body = Client.shapeOf b.body :=
      ⟨fun _ _ hab heq => (hab heq.symm).symm⟩
    exact ⟨first, hfirst, h.forall_of_forall (fun _ _ _ => rfl) hmem hr hstatus⟩

/-- For a response that the server writes a case for, the client has a branch that decodes its
shape. It is the first branch for the status exactly if no earlier response has the status, and so
for every case exactly if the statuses of the written cases are distinct. The first branch for the
status decodes the response by its own shape exactly if the first response with the status has that
shape, and so for every case exactly if written cases with the same status have the same shape. -/
theorem dispatch_agrees_iff (e : Endpoint) (dialect : Dialect) :
    (∀ i r, Server.WritesCase e i → e.responses[i]? = some r →
      (Client.emittedChain e dialect)[i]?.map Client.branchBody =
          some (Client.responseSteps e dialect r.body) ∧
        ((Client.emittedChain e dialect).findIdx? (Client.testsStatus r.status) = some i ↔
          ∀ j < i, ∀ r', e.responses[j]? = some r' → r'.status ≠ r.status) ∧
        (Client.stepsFor e dialect r.status = some (Client.responseSteps e dialect r.body) ↔
          ∃ first, e.responses.find? (·.status == r.status) = some first ∧
            Client.shapeOf first.body = Client.shapeOf r.body)) ∧
    ((∀ i r, Server.WritesCase e i → e.responses[i]? = some r →
        (Client.emittedChain e dialect).findIdx? (Client.testsStatus r.status) = some i) ↔
      ((Server.reachable e.responses).map (·.status)).Nodup) ∧
    ((∀ i r, Server.WritesCase e i → e.responses[i]? = some r →
        Client.stepsFor e dialect r.status = some (Client.responseSteps e dialect r.body)) ↔
      (Server.reachable e.responses).Pairwise fun a b =>
        a.status = b.status → Client.shapeOf a.body = Client.shapeOf b.body) := by
  refine ⟨fun i r _ hr => ⟨?_, Client.findIdx_emittedChain_eq_some_iff dialect hr,
    Client.stepsFor_eq_some_iff e dialect r⟩, ?_,
    Server.forall_writesCase_iff.trans (forall_stepsFor_eq_iff e dialect)⟩
  · rw [← List.getElem?_map, Client.map_branchBody_emittedChain, List.getElem?_map, hr]
    rfl
  · simp only [Server.writesCase_iff]
    rw [List.nodup_iff_getElem?_ne_getElem?]
    simp only [List.length_map, List.getElem?_map]
    constructor
    · intro hagree i j hij hj
      obtain ⟨r, hr⟩ := Server.exists_of_lt_reachable hj
      obtain ⟨r', hr'⟩ := Server.exists_of_lt_reachable (Nat.lt_trans hij hj)
      rw [Server.getElem?_reachable hj, Server.getElem?_reachable (Nat.lt_trans hij hj), hr, hr']
      have hfirst := Client.findIdx_emittedChain_eq_some_iff dialect hr
      simpa using hfirst.1 (hagree j r hj hr) i hij r' hr'
    · intro hdistinct i r hi hr
      refine (Client.findIdx_emittedChain_eq_some_iff dialect hr).2 fun j hj r' hr' heq => ?_
      refine hdistinct j i hj hi ?_
      rw [Server.getElem?_reachable hi, Server.getElem?_reachable (Nat.lt_trans hj hi), hr, hr',
        Option.map_some, Option.map_some, heq]

/-! ## Two responses with one status -/

/-- A method with two response fields. -/
def draftMethod : Service.Method where
  name := "getWidget"
  responseFields :=
    [{ name := "widget", type := .dto "Widget" }, { name := "draft", type := .dto "Draft" }]

/-- The document of that method alone; the second field is sent with status `second`. -/
def draftDocument (second : UInt16) : Service.Document where
  service := { name := "Widgets", methods := [draftMethod] }
  http := {
    methods := [{
      name := "getWidget"
      verb := .get
      path := "/widget"
      validResponses := [
        { status := 200, bodyField := some "widget" },
        { status := second, bodyField := some "draft" }] }] }

def draftEndpoint (second : UInt16) : Endpoint where
  method := draftMethod
  verb := .get
  path := [.text "/widget"]
  pathFields := []
  queryFields := []
  requestHeaderFields := []
  requestBody := .none
  responseHeaderFields := []
  responses := [
    ⟨200, .field { name := "widget", type := .dto "Widget" }⟩,
    ⟨second, .field { name := "draft", type := .dto "Draft" }⟩]

/-- The endpoint with the first response twice. -/
def twinEndpoint : Endpoint :=
  { draftEndpoint 200 with responses := (draftEndpoint 200).responses.take 1 ++
      (draftEndpoint 200).responses.take 1 }

/-- With a status of its own, the second response is decoded by its own branch. Two responses with
one status and one shape are decoded by that shape, though by one branch. -/
theorem draft_decoded_as_draft :
    Server.WritesCase (draftEndpoint 202) 1 ∧
      (Client.emittedChain (draftEndpoint 202) .typeScript).findIdx? (Client.testsStatus 202) =
        some 1 ∧
      Server.WritesCase twinEndpoint 1 ∧
      (Client.emittedChain twinEndpoint .typeScript).findIdx? (Client.testsStatus 200) ≠ some 1 ∧
      Client.stepsFor twinEndpoint .typeScript 200 = some (Client.responseSteps twinEndpoint
        .typeScript (.field { name := "widget", type := .dto "Widget" })) := by
  have hcase : Server.WritesCase (draftEndpoint 202) 1 := Server.writesCase_iff.2 (by decide)
  have htwin : Server.WritesCase twinEndpoint 1 := Server.writesCase_iff.2 (by decide)
  have hagree := (dispatch_agrees_iff (draftEndpoint 202) .typeScript).2.1.2 (by decide)
  have hfirst := hagree 1 ⟨202, .field { name := "draft", type := .dto "Draft" }⟩ hcase rfl
  obtain ⟨hbranch, -, hshape⟩ := dispatch_agrees_iff twinEndpoint .typeScript
  have hsecond :=
    (hbranch 1 ⟨200, .field { name := "widget", type := .dto "Widget" }⟩ htwin rfl).2.1
  have hsteps := hshape.2 (by decide) 1 ⟨200, .field { name := "widget", type := .dto "Widget" }⟩
    htwin rfl
  refine ⟨hcase, hfirst, htwin, fun hother => ?_, hsteps⟩
  exact hsecond.1 hother 0 (by decide) _ rfl rfl

/-- With the status of the first, the server writes a case for it all the same, and the client
decodes it as the first. -/
theorem draft_decoded_as_widget :
    (draftDocument 200).check = .ok () ∧
      Api.ofDocument (draftDocument 200) =
        .ok ⟨(draftDocument 200).service, none, [draftEndpoint 200]⟩ ∧
      Server.WritesCase (draftEndpoint 200) 1 ∧
      (draftEndpoint 200).responses[1]? =
        some ⟨200, .field { name := "draft", type := .dto "Draft" }⟩ ∧
      (Client.emittedChain (draftEndpoint 200) .typeScript).findIdx? (Client.testsStatus 200) =
        some 0 ∧
      Client.stepsFor (draftEndpoint 200) .typeScript 200 ≠
        some (Client.responseSteps (draftEndpoint 200) .typeScript
          (.field { name := "draft", type := .dto "Draft" })) := by
  refine ⟨rfl, rfl, Server.writesCase_iff.2 (by decide), rfl, ?_, ?_⟩
  · rw [Client.findIdx_emittedChain]
    rfl
  · have hiff := Client.stepsFor_eq_some_iff (draftEndpoint 200) .typeScript
      ⟨200, .field { name := "draft", type := .dto "Draft" }⟩
    intro hsteps
    obtain ⟨first, hfirst, hshape⟩ := hiff.1 hsteps
    cases hfirst
    exact absurd hshape (by decide)

end HttpStubs.Stub
