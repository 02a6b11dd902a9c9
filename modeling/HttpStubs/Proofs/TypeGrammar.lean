import Mathlib.Data.List.Basic
import HttpStubs.Code.TypeExpr
import HttpStubs.Proofs.TypeTokens

/-!
# The grammar of types

A type is a union of postfix types, and an array's brackets bind tighter than the bar of a union.
`IsUnion` is this grammar; `readTokens` reads a type with a stack of what stands open around the
current place. The reader takes every derivation (`readTokens_of_isType`), so that no text has two.
The text of a rendered type has one, with the type itself as its value (`isRendered_ofValueType`).
-/

namespace HttpStubs.Code

namespace TypeExpr

/-! ## What the constructs stand for -/

/-- The built-in types. -/
def primitives : List Primitive :=
  [.string, .number, .boolean, .null, .unknown]

/-- A name on its own: a built-in type, or a reference. -/
def ofName (name : String) : TypeExpr :=
  match primitives.find? (·.text == name) with
  | some p => .primitive p
  | none => .ref name

/-- A name with arguments. -/
def ofArguments (name : String) : List TypeExpr → TypeExpr
  | [key, value] => if name = "Record" then .record key value else .generic name [key, value]
  | arguments => .generic name arguments

/-- The members between bars: a single one is no union. -/
def ofMembers : List TypeExpr → TypeExpr
  | [e] => e
  | members => .union members

/-- Whether an expression is a union. -/
def isUnion : TypeExpr → Bool
  | .union _ => true
  | _ => false

theorem parenthesize_of_not_union {e : TypeExpr} (h : e.isUnion = false) (text : String) :
    e.parenthesize text = text := by
  cases e with
  | union => cases h
  | _ => rfl

theorem orNull_of_not_union {e : TypeExpr} (h : e.isUnion = false) :
    e.orNull = .union [e, .primitive .null] := by
  cases e with
  | union => cases h
  | _ => rfl

theorem ofName_text (p : Primitive) : ofName p.text = .primitive p := by
  cases p <;> rfl

theorem ofName_of_ne {name : String} (h : ∀ p : Primitive, name ≠ p.text) :
    ofName name = .ref name := by
  have hnone : primitives.find? (·.text == name) = none := by
    rw [List.find?_eq_none]
    intro p _
    simp [(h p).symm]
  rw [ofName, hnone]

end TypeExpr

open TypeExpr (ofArguments ofMembers ofName)

/-! ## The grammar -/

mutual

/-- Names, names with arguments, and types in parentheses. -/
inductive IsAtom : List TypeToken → TypeExpr → Prop where
  | name (n : String) : IsAtom [.name n] (ofName n)
  | arguments (n : String) {ts : List TypeToken} {es : List TypeExpr} (h : IsArguments ts es) :
    IsAtom (.name n :: .less :: ts ++ [.greater]) (ofArguments n es)
  | group {ts : List TypeToken} {es : List TypeExpr} (h : IsUnion ts es) :
    IsAtom (.leftParen :: ts ++ [.rightParen]) (ofMembers es)

/-- Atoms with brackets behind them. -/
inductive IsPostfix : List TypeToken → TypeExpr → Prop where
  | atom {ts : List TypeToken} {e : TypeExpr} (h : IsAtom ts e) : IsPostfix ts e
  | array {ts : List TypeToken} {e : TypeExpr} (h : IsPostfix ts e) :
    IsPostfix (ts ++ [.leftBracket, .rightBracket]) (.array e)

/-- The members of a union, with bars between them. -/
inductive IsUnion : List TypeToken → List TypeExpr → Prop where
  | one {ts : List TypeToken} {e : TypeExpr} (h : IsPostfix ts e) : IsUnion ts [e]
  | more {ts us : List TypeToken} {es : List TypeExpr} {e : TypeExpr} (h : IsUnion ts es)
    (h' : IsPostfix us e) : IsUnion (ts ++ .bar :: us) (es ++ [e])

/-- Arguments, with commas between them. -/
inductive IsArguments : List TypeToken → List TypeExpr → Prop where
  | one {ts : List TypeToken} {es : List TypeExpr} (h : IsUnion ts es) :
    IsArguments ts [ofMembers es]
  | more {ts us : List TypeToken} {es es' : List TypeExpr} (h : IsArguments ts es)
    (h' : IsUnion us es') : IsArguments (ts ++ .comma :: us) (es ++ [ofMembers es'])

end

/-- The tokens are those of one type. -/
def IsType (tokens : List TypeToken) (e : TypeExpr) : Prop :=
  ∃ members, IsUnion tokens members ∧ ofMembers members = e

/-! ## The reader -/

namespace TypeReader

/-- What stands open around a type: parentheses, or the list of arguments of a name. `outer` holds
the members of the union in which it stands. -/
inductive Frame where
  | group (outer : List TypeExpr)
  | arguments (outer : List TypeExpr) (name : String) (done : List TypeExpr)

/-- A type to which more may be added: a name may still get arguments. -/
inductive Operand where
  | name (n : String)
  | expr (e : TypeExpr)

/-- The type that an operand is if nothing is added to it. -/
def Operand.value : Operand → TypeExpr
  | .name n => ofName n
  | .expr e => e

/-- The place in a type, with the members before it and what stands open. -/
inductive State where
  /-- At the start of a member. -/
  | start (members : List TypeExpr) (frames : List Frame)
  /-- Behind an operand. -/
  | behind (operand : Operand) (members : List TypeExpr) (frames : List Frame)
  /-- Behind a left bracket. -/
  | bracket (e : TypeExpr) (members : List TypeExpr) (frames : List Frame)

/-- Reads one token. -/
def step : State → TypeToken → Option State
  | .start members frames, .name n => some (.behind (.name n) members frames)
  | .start members frames, .leftParen => some (.start [] (.group members :: frames))
  | .behind (.name n) members frames, .less => some (.start [] (.arguments members n [] :: frames))
  | .behind o members frames, .leftBracket => some (.bracket o.value members frames)
  | .bracket e members frames, .rightBracket => some (.behind (.expr (.array e)) members frames)
  | .behind o members frames, .bar => some (.start (members ++ [o.value]) frames)
  | .behind o members (.group outer :: frames), .rightParen =>
    some (.behind (.expr (ofMembers (members ++ [o.value]))) outer frames)
  | .behind o members (.arguments outer n done :: frames), .comma =>
    some (.start [] (.arguments outer n (done ++ [ofMembers (members ++ [o.value])]) :: frames))
  | .behind o members (.arguments outer n done :: frames), .greater =>
    some (.behind (.expr (ofArguments n (done ++ [ofMembers (members ++ [o.value])]))) outer frames)
  | _, _ => none

/-- Reads tokens one after the other. -/
def run (s : State) (tokens : List TypeToken) : Option State :=
  tokens.foldlM step s

/-- The type that has been read, if nothing stands open. -/
def State.result? : State → Option TypeExpr
  | .behind o members [] => some (ofMembers (members ++ [o.value]))
  | _ => none

theorem run_append (s : State) (ts us : List TypeToken) :
    run s (ts ++ us) = (run s ts).bind (run · us) :=
  List.foldlM_append

theorem run_cons (s : State) (t : TypeToken) (ts : List TypeToken) :
    run s (t :: ts) = (step s t).bind (run · ts) :=
  List.foldlM_cons

section Steps

variable (o : Operand) (members : List TypeExpr) (frames : List Frame)

theorem step_leftBracket : step (.behind o members frames) .leftBracket =
    some (.bracket o.value members frames) := by
  cases o <;> rfl

theorem step_bar : step (.behind o members frames) .bar =
    some (.start (members ++ [o.value]) frames) := by
  cases o <;> rfl

theorem step_rightParen (outer : List TypeExpr) :
    step (.behind o members (.group outer :: frames)) .rightParen =
      some (.behind (.expr (ofMembers (members ++ [o.value]))) outer frames) := by
  cases o <;> rfl

theorem step_comma (outer : List TypeExpr) (n : String) (done : List TypeExpr) :
    step (.behind o members (.arguments outer n done :: frames)) .comma =
      some (.start []
        (.arguments outer n (done ++ [ofMembers (members ++ [o.value])]) :: frames)) := by
  cases o <;> rfl

theorem step_greater (outer : List TypeExpr) (n : String) (done : List TypeExpr) :
    step (.behind o members (.arguments outer n done :: frames)) .greater =
      some (.behind (.expr (ofArguments n (done ++ [ofMembers (members ++ [o.value])]))) outer
        frames) := by
  cases o <;> rfl

end Steps

/-! ## Every derivation is read -/

/-- From the start of a member, the tokens bring the reader behind an operand of that type. -/
def ReadsOperand (ts : List TypeToken) (e : TypeExpr) : Prop :=
  ∀ members frames, ∃ o,
    run (.start members frames) ts = some (.behind o members frames) ∧ o.value = e

/-- From the start of a union, the tokens bring the reader behind the last of these members. -/
def ReadsUnion (ts : List TypeToken) (es : List TypeExpr) : Prop :=
  ∀ frames, ∃ members o,
    run (.start [] frames) ts = some (.behind o members frames) ∧ members ++ [o.value] = es

/-- From the start of a list of arguments, the tokens bring the reader behind the last of these. -/
def ReadsArguments (ts : List TypeToken) (es : List TypeExpr) : Prop :=
  ∀ outer n frames, ∃ done members o,
    run (.start [] (.arguments outer n [] :: frames)) ts =
        some (.behind o members (.arguments outer n done :: frames)) ∧
      done ++ [ofMembers (members ++ [o.value])] = es

section Rules

variable {ts us : List TypeToken} {es es' : List TypeExpr} {e : TypeExpr}

theorem readsOperand_name (n : String) : ReadsOperand [.name n] (ofName n) :=
  fun _ _ => ⟨.name n, rfl, rfl⟩

theorem ReadsArguments.applied (h : ReadsArguments ts es) (n : String) :
    ReadsOperand (.name n :: .less :: ts ++ [.greater]) (ofArguments n es) := by
  intro members frames
  obtain ⟨done, inner, o, hrun, rfl⟩ := h members n frames
  refine ⟨.expr _, ?_, rfl⟩
  rw [List.cons_append, run_cons, step, Option.bind_some, List.cons_append, run_cons, step,
    Option.bind_some, run_append, hrun, Option.bind_some, run_cons, step_greater]
  rfl

theorem ReadsUnion.group (h : ReadsUnion ts es) :
    ReadsOperand (.leftParen :: ts ++ [.rightParen]) (ofMembers es) := by
  intro members frames
  obtain ⟨inner, o, hrun, rfl⟩ := h (.group members :: frames)
  refine ⟨.expr _, ?_, rfl⟩
  rw [List.cons_append, run_cons, step, Option.bind_some, run_append, hrun, Option.bind_some,
    run_cons, step_rightParen]
  rfl

theorem ReadsOperand.array (h : ReadsOperand ts e) :
    ReadsOperand (ts ++ [.leftBracket, .rightBracket]) (.array e) := by
  intro members frames
  obtain ⟨o, hrun, rfl⟩ := h members frames
  refine ⟨.expr _, ?_, rfl⟩
  rw [run_append, hrun, Option.bind_some, run_cons, step_leftBracket]
  rfl

theorem ReadsOperand.one (h : ReadsOperand ts e) : ReadsUnion ts [e] := by
  intro frames
  obtain ⟨o, hrun, rfl⟩ := h [] frames
  exact ⟨[], o, hrun, rfl⟩

theorem ReadsUnion.more (h : ReadsUnion ts es) (h' : ReadsOperand us e) :
    ReadsUnion (ts ++ .bar :: us) (es ++ [e]) := by
  intro frames
  obtain ⟨members, o, hrun, rfl⟩ := h frames
  obtain ⟨o', hrun', rfl⟩ := h' (members ++ [o.value]) frames
  refine ⟨_, o', ?_, rfl⟩
  rw [run_append, hrun, Option.bind_some, run_cons, step_bar, Option.bind_some, hrun']

theorem ReadsUnion.argument (h : ReadsUnion ts es) : ReadsArguments ts [ofMembers es] := by
  intro outer n frames
  obtain ⟨members, o, hrun, rfl⟩ := h (.arguments outer n [] :: frames)
  exact ⟨[], members, o, hrun, rfl⟩

theorem ReadsArguments.more (h : ReadsArguments ts es) (h' : ReadsUnion us es') :
    ReadsArguments (ts ++ .comma :: us) (es ++ [ofMembers es']) := by
  intro outer n frames
  obtain ⟨done, members, o, hrun, rfl⟩ := h outer n frames
  obtain ⟨members', o', hrun', rfl⟩ := h' (.arguments outer n _ :: frames)
  refine ⟨_, members', o', ?_, rfl⟩
  rw [run_append, hrun, Option.bind_some, run_cons, step_comma, Option.bind_some, hrun']

/-- One rule of the reader for each rule of the grammar, in the order of the grammar. -/
theorem readsUnion_of_isUnion (h : IsUnion ts es) : ReadsUnion ts es :=
  @IsUnion.rec (fun ts e _ => ReadsOperand ts e) (fun ts e _ => ReadsOperand ts e)
    (fun ts es _ => ReadsUnion ts es) (fun ts es _ => ReadsArguments ts es)
    readsOperand_name (fun n _ _ _ ih => ih.applied n) (fun _ ih => ih.group)
    (fun _ ih => ih) (fun _ ih => ih.array)
    (fun _ ih => ih.one) (fun _ _ ih ih' => ih.more ih')
    (fun _ ih => ih.argument) (fun _ _ ih ih' => ih.more ih') ts es h

end Rules

end TypeReader

/-- The type that tokens are read as. -/
def readTokens (tokens : List TypeToken) : Option TypeExpr :=
  (TypeReader.run (.start [] []) tokens).bind (·.result?)

/-- The type that a text is read as. -/
def readType (a : Alphabet) (text : String) : Option TypeExpr :=
  (a.lex text).bind readTokens

theorem readTokens_of_isType {ts : List TypeToken} {e : TypeExpr} (h : IsType ts e) :
    readTokens ts = some e := by
  obtain ⟨es, hunion, rfl⟩ := h
  obtain ⟨members, o, hrun, rfl⟩ := TypeReader.readsUnion_of_isUnion hunion []
  rw [readTokens, hrun]
  rfl

/-! ## Rendered types -/

section Rendered

variable {a : Alphabet} {e : TypeExpr}

theorem Alphabet.isName_of_letters (a : Alphabet) {name : String}
    (h : name.toList.all Char.isAlpha = true) (hne : name ≠ "") : a.IsName name := by
  rw [List.all_eq_true] at h
  have hstarts : ∀ c ∈ name.toList, a.starts c := fun c hc => a.starts_of_isAlpha c (h c hc)
  refine ⟨?_, fun c hc => a.continues_of_starts c (hstarts c hc)⟩
  cases hname : name.toList with
  | nil => exact absurd (by simpa using hname) hne
  | cons c cs => exact ⟨c, rfl, hstarts c (hname ▸ List.mem_cons_self)⟩

/-- The text of the type is that of a postfix type with the type as its value. -/
def WritesPostfix (a : Alphabet) (e : TypeExpr) : Prop :=
  ∃ ts, a.Lexes e.text ts ∧ IsPostfix ts e

/-- The text of the type is that of a type with the type as its value. -/
def WritesType (a : Alphabet) (e : TypeExpr) : Prop :=
  ∃ ts, a.Lexes e.text ts ∧ IsType ts e

theorem writesPostfix_name {name : String} (h : a.IsName name) (htext : e.text = name)
    (he : ofName name = e) : WritesPostfix a e := by
  refine ⟨[.name name], ?_, ?_⟩
  · rw [htext]
    exact Alphabet.lexes_name h
  · rw [← he]
    exact .atom (.name name)

theorem writesPostfix_primitive (a : Alphabet) (p : Primitive) :
    WritesPostfix a (.primitive p) := by
  refine writesPostfix_name (a.isName_of_letters ?_ ?_) rfl (TypeExpr.ofName_text p)
  · cases p <;> decide
  · cases p <;> decide

theorem writesPostfix_ref {name : String} (h : a.IsName name)
    (hother : ∀ p : Primitive, name ≠ p.text) : WritesPostfix a (.ref name) :=
  writesPostfix_name h rfl (TypeExpr.ofName_of_ne hother)

theorem writesPostfix_arguments {name text : String} {ts : List TypeToken} {es : List TypeExpr}
    (hname : a.IsName name) (hlex : a.Lexes text ts) (harguments : IsArguments ts es)
    (htext : e.text = name ++ "<" ++ text ++ ">") (he : ofArguments name es = e) :
    WritesPostfix a e := by
  subst he
  refine ⟨_, ?_, .atom (.arguments name harguments)⟩
  rw [htext]
  exact ((Alphabet.lexes_name hname).between "<" rfl (by decide) hlex).before ">" rfl (by decide)

namespace WritesPostfix

theorem type (h : WritesPostfix a e) : WritesType a e := by
  obtain ⟨ts, hlex, hpostfix⟩ := h
  exact ⟨ts, hlex, [e], .one hpostfix, rfl⟩

theorem union (h : WritesPostfix a e) : WritesType a (.union [e, .primitive .null]) := by
  obtain ⟨ts, hlex, hpostfix⟩ := h
  obtain ⟨us, hlex', hpostfix'⟩ := writesPostfix_primitive a .null
  refine ⟨_, ?_, [e, .primitive .null], .more (.one hpostfix) hpostfix', rfl⟩
  have htext : (TypeExpr.union [e, .primitive .null]).text =
      e.text ++ " | " ++ (TypeExpr.primitive .null).text := by
    simp [TypeExpr.text, TypeExpr.texts]
  rw [htext, ← List.singleton_append, ← List.append_assoc]
  exact hlex.between " | " rfl (by decide) hlex'

/-- Brackets directly behind a type that is not a union. -/
theorem array (h : WritesPostfix a e) (hplain : e.parenthesize e.text = e.text) :
    WritesPostfix a (.array e) := by
  obtain ⟨ts, hlex, hpostfix⟩ := h
  refine ⟨_, ?_, .array hpostfix⟩
  rw [TypeExpr.text, hplain]
  exact hlex.before "[]" rfl (by decide)

end WritesPostfix

namespace WritesType

/-- Brackets behind a type in parentheses. -/
theorem array (h : WritesType a e) (hgroup : e.parenthesize e.text = "(" ++ e.text ++ ")") :
    WritesPostfix a (.array e) := by
  obtain ⟨ts, hlex, es, hunion, rfl⟩ := h
  refine ⟨_, ?_, .array (.atom (.group hunion))⟩
  have hinner := (hlex.after "(" rfl).before ")" rfl (by decide)
  rw [TypeExpr.text, hgroup]
  exact hinner.before "[]" rfl (by decide)

theorem generic (h : WritesType a e) : WritesPostfix a (.generic serviceResult [e]) := by
  obtain ⟨ts, hlex, es, hunion, rfl⟩ := h
  have hname : a.IsName serviceResult := a.isName_of_letters (by decide) (by decide)
  refine writesPostfix_arguments hname hlex (.one hunion) ?_ rfl
  simp [TypeExpr.text, TypeExpr.texts]

theorem stringRecord (h : WritesType a e) : WritesPostfix a (.stringRecord e) := by
  obtain ⟨ts, hlex, es, hunion, rfl⟩ := h
  obtain ⟨us, hkey, hpostfix⟩ := writesPostfix_primitive a .string
  have hname : a.IsName "Record" := a.isName_of_letters (by decide) (by decide)
  have hboth : a.Lexes ((TypeExpr.primitive .string).text ++ ", " ++ (ofMembers es).text)
      (us ++ [.comma] ++ ts) := hkey.between ", " rfl (by decide) hlex
  rw [List.append_assoc, List.singleton_append] at hboth
  refine writesPostfix_arguments hname hboth (.more (.one (.one hpostfix)) hunion) ?_ rfl
  simp [TypeExpr.stringRecord, TypeExpr.text, String.append_assoc]

end WritesType

/-- The types that rendering makes: types other than unions, and unions of one such type with
`null`. -/
inductive IsRendered (a : Alphabet) : TypeExpr → Prop where
  | plain {e : TypeExpr} (h : WritesPostfix a e) (hplain : e.isUnion = false) : IsRendered a e
  | nullable {e : TypeExpr} (h : WritesPostfix a e) (hplain : e.isUnion = false) :
    IsRendered a (.union [e, .primitive .null])

namespace IsRendered

theorem writesType (h : IsRendered a e) : WritesType a e := by
  cases h with
  | plain h => exact h.type
  | nullable h => exact h.union

theorem array (h : IsRendered a e) : IsRendered a (.array e) := by
  refine .plain ?_ rfl
  cases h with
  | plain h hplain => exact h.array (TypeExpr.parenthesize_of_not_union hplain _)
  | nullable h => exact h.union.array rfl

theorem orNull (h : IsRendered a e) : IsRendered a e.orNull := by
  cases h with
  | plain h hplain =>
    rw [TypeExpr.orNull_of_not_union hplain]
    exact .nullable h hplain
  | nullable h hplain =>
    -- The union has `null` already.
    simp only [TypeExpr.orNull, List.any_cons, TypeExpr.isNull, Bool.true_or, Bool.or_true, if_true]
    exact .nullable h hplain

end IsRendered

/-- The names in a type are identifiers, and no enum is called like a built-in type. -/
def IsNamed (a : Alphabet) : Service.ValueType → Prop
  | .dto name => a.IsName name
  | .enum name => a.IsName name ∧ ∀ p : Primitive, name ≠ p.text
  | .result value | .array value | .map value | .nullable value => IsNamed a value
  | _ => True

theorem dtoInterface_ne (name : String) (p : Primitive) : dtoInterface name ≠ p.text := by
  intro h
  have hhead := congrArg (·.toList.head?) h
  cases p <;> simp [dtoInterface, Primitive.text] at hhead

theorem isName_dtoInterface {name : String} (h : a.IsName name) : a.IsName (dtoInterface name) := by
  have hI : a.starts 'I' := a.starts_of_isAlpha 'I' (by decide)
  rw [dtoInterface, Alphabet.IsName, String.toList_append]
  refine ⟨⟨'I', rfl, hI⟩, fun c hc => ?_⟩
  rcases List.mem_append.1 hc with hc | hc
  · obtain rfl := List.mem_singleton.1 hc
    exact a.continues_of_starts 'I' hI
  · exact h.2 c hc

theorem isRendered_ofValueType {t : Service.ValueType} (h : IsNamed a t) :
    IsRendered a (.ofValueType t) := by
  induction t with
  | string | bytes | boolean | int32 | int64 | double | decimal =>
    exact .plain (writesPostfix_primitive a _) rfl
  | object => exact .plain (writesPostfix_primitive a .unknown).type.stringRecord rfl
  | error =>
    refine .plain (writesPostfix_ref (a.isName_of_letters (by decide) (by decide)) ?_) rfl
    intro p
    cases p <;> decide
  | dto name =>
    exact .plain (writesPostfix_ref (isName_dtoInterface h) (dtoInterface_ne name)) rfl
  | enum name => exact .plain (writesPostfix_ref h.1 h.2) rfl
  | result value ih => exact .plain (ih h).writesType.generic rfl
  | array value ih => exact (ih h).array
  | map value ih => exact .plain (ih h).writesType.stringRecord rfl
  | nullable value ih => exact (ih h).orNull

theorem readType_of_writesType (h : WritesType a e) : readType a e.text = some e := by
  obtain ⟨ts, hlex, htype⟩ := h
  rw [readType, hlex.lex_eq, Option.bind_some, readTokens_of_isType htype]

end Rendered

/-- The text of a rendered type is read back as that type: its tokens are those of one type in the
grammar, namely of this one. So two value types have the same text only if they are rendered
alike. -/
theorem rendered_read_back {a : Alphabet} {t : Service.ValueType} (h : IsNamed a t) :
    readType a (TypeExpr.ofValueType t).text = some (.ofValueType t) ∧
      (∃ ts, a.lex (TypeExpr.ofValueType t).text = some ts ∧
        ∀ e, IsType ts e ↔ e = .ofValueType t) ∧
      ∀ u, IsNamed a u →
        ((TypeExpr.ofValueType t).text = (TypeExpr.ofValueType u).text ↔
          TypeExpr.ofValueType t = .ofValueType u) := by
  have hwrites := (isRendered_ofValueType h).writesType
  have hread := readType_of_writesType hwrites
  refine ⟨hread, ?_, fun u hu => ⟨fun htext => ?_, fun heq => by rw [heq]⟩⟩
  · obtain ⟨ts, hlex, htype⟩ := hwrites
    refine ⟨ts, hlex.lex_eq, fun e => ⟨fun he => ?_, fun heq => heq ▸ htype⟩⟩
    exact Option.some.inj ((readTokens_of_isType he).symm.trans (readTokens_of_isType htype))
  · have hread' := readType_of_writesType (isRendered_ofValueType hu).writesType
    rw [htext, hread'] at hread
    exact (Option.some.inj hread).symm

/-- A result with lists of enum values under string keys, where each value may be missing, as may
the whole. -/
def colorsType : Service.ValueType :=
  .nullable (.result (.map (.array (.nullable (.nullable (.enum "Color"))))))

theorem colorsType_read_back :
    (TypeExpr.ofValueType colorsType).text =
        "IServiceResult<Record<string, (Color | null)[]>> | null" ∧
      IsNamed .ascii colorsType ∧
      readType .ascii "IServiceResult<Record<string, (Color | null)[]>> | null" =
        some (.ofValueType colorsType) := by
  have htext : (TypeExpr.ofValueType colorsType).text =
      "IServiceResult<Record<string, (Color | null)[]>> | null" := by
    decide
  have hnamed : IsNamed .ascii colorsType := by
    refine ⟨Alphabet.ascii.isName_of_letters (by decide) (by decide), fun p => ?_⟩
    cases p <;> decide
  exact ⟨htext, hnamed, htext ▸ (rendered_read_back hnamed).1⟩

end HttpStubs.Code
