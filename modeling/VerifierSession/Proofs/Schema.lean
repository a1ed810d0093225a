import VerifierSession.Proofs.Encoding
import VerifierSession.Proofs.Recognition

/-!
# The schema of the records

What a line has to be for the decoder to accept it, and what it then says.

* `Has`, `MayHave`: a field of a record, as a member of an object or as an item of a list;
* `IsExtra`, `IsFinding`, `IsCodeError`, `IsStream`: the records, with every field that is read;
* `Conforms`: a line with its tag, if it has one;
* `isRecord_finding` and its like: what is read of a record is what its fields have;
* `decode_conforms`: the lines that are accepted are those that conform to the schema, and any
  other one comes back as it was.
-/

namespace VerifierSession
namespace Wire

open Json (Tree Value Exact Held OrNull Clause At InForm IsRecord Denotes)

/-! ## Fields -/

section Fields

variable {α : Type} (shape : Tree → α → Prop) (tree : Tree) (name : String) (index : Nat)

def Has (a : α) : Prop :=
  ∃ t, At tree name index (some t) ∧ shape t a

/-- A record has a value for a field, or the field is `null` or missing. -/
def MayHave : Option α → Prop
  | some a => Has shape tree name index a
  | none => At tree name index (some .null) ∨ At tree name index none

end Fields

section Clauses

variable {α : Type} {read : Json.Reader Value} {shape : Tree → α → Prop} {hold : α → Value}
  {tree : Tree} {index : Nat} {v : Value}

def requiredClause (name : String) (hread : Exact read (Held shape hold)) : Clause where
  field := required name read
  shape := Held shape hold
  sound := hread.sound
  complete := hread.complete

def optionalClause (name : String) (hread : Exact read (Held shape hold)) : Clause where
  field := optional name read
  shape := OrNull (Held shape hold)
  sound := Json.sound_readNullable hread.sound
  complete := Json.complete_readNullable hread.complete hread.not_null

def omissibleClause (name : String) (hread : Exact read (Held shape hold)) : Clause where
  field := omissible name read
  shape := OrNull (Held shape hold)
  sound := Json.sound_readNullable hread.sound
  complete := Json.complete_readNullable hread.complete hread.not_null

theorem found_required {name : String} {hread : Exact read (Held shape hold)} :
    (requiredClause name hread).Found tree index v ↔
      ∃ a, Has shape tree name index a ∧ v = hold a := by
  constructor
  · rintro (⟨t, ht, a, hshape, hv⟩ | ⟨-, hmissing⟩)
    · exact ⟨a, ⟨t, ht, hshape⟩, hv⟩
    · cases tree <;> cases hmissing
  · rintro ⟨a, ⟨t, ht, hshape⟩, hv⟩
    exact .inl ⟨t, ht, a, hshape, hv⟩

/-- A field that may be `null`, in a record in which it may be missing where it is missing. -/
theorem found_orNull {clause : Clause} (hshape : clause.shape = OrNull (Held shape hold))
    (hmissing : At tree clause.field.name index none → clause.missing? tree = some .null) :
    clause.Found tree index v ↔
      ∃ a, MayHave shape tree clause.field.name index a ∧ v = (a.map hold).getD .null := by
  constructor
  · rintro (⟨t, ht, hfound⟩ | ⟨ht, hv⟩)
    · rw [hshape] at hfound
      rcases hfound with ⟨rfl, rfl⟩ | ⟨a, ha, rfl⟩
      · exact ⟨none, .inl ht, rfl⟩
      · exact ⟨some a, ⟨t, ht, ha⟩, rfl⟩
    · exact ⟨none, .inr ht, Option.some.inj (hv.symm.trans (hmissing ht))⟩
  · rintro ⟨a, ha, rfl⟩
    cases a with
    | some a =>
        rcases ha with ⟨t, ht, ha⟩
        exact .inl ⟨t, ht, hshape ▸ .inr ⟨a, ha, rfl⟩⟩
    | none =>
        rcases ha with ht | ht
        · exact .inl ⟨.null, ht, hshape ▸ .inl ⟨rfl, rfl⟩⟩
        · exact .inr ⟨ht, hmissing ht⟩

theorem found_omissible {name : String} {hread : Exact read (Held shape hold)} :
    (omissibleClause name hread).Found tree index v ↔
      ∃ a, MayHave shape tree name index a ∧ v = (a.map hold).getD .null :=
  found_orNull rfl fun _ => by cases tree <;> rfl

/-- A list that is long enough has all fields that may only be missing from an object. -/
theorem found_optional {name : String} {hread : Exact read (Held shape hold)} {least most : Nat}
    (hform : InForm least most tree) (hindex : index < least) :
    (optionalClause name hread).Found tree index v ↔
      ∃ a, MayHave shape tree name index a ∧ v = (a.map hold).getD .null := by
  apply found_orNull rfl
  intro hnone
  rcases hform with ⟨members, rfl, -⟩ | ⟨items, rfl, hleast, -⟩
  · rfl
  · exact absurd (Nat.lt_of_lt_of_le hindex hleast) (Nat.not_lt.2 (List.getElem?_eq_none_iff.1 hnone))

end Clauses

/-! ## Records -/

structure IsExtra (tree : Tree) (extra : Extra) : Prop where
  form : InForm 5 5 tree
  left : MayHave Tree.IsInteger tree "offsetLeft" 0 extra.left
  right : MayHave Tree.IsInteger tree "offsetRight" 1 extra.right
  title : MayHave Tree.IsText tree "title" 2 extra.title
  quantifiersRemoved : MayHave Tree.IsInteger tree "quantifiersRemoved" 3 extra.quantifiersRemoved
  whileRule : MayHave Tree.IsText tree "whileRule" 4 extra.whileRule

/-- A finding: its level is one of the five tags, and its attributes come from the hints. -/
structure IsFinding (tree : Tree) (d : Diagnostic) : Prop where
  form : InForm 3 4 tree
  level : ∃ level ∈ ["INFO", "WARN", "ERR", "ERROR", "DEBUG"],
    Has Tree.IsText tree "level" 0 level ∧ Severity.ofTag? level = some d.severity
  timestamp : MayHave Tree.IsText tree "timestamp" 1 d.timestamp
  message : Has Tree.IsText tree "message" 2 d.message
  extra : ∃ extra, MayHave IsExtra tree "extra" 3 extra ∧
    d.attributes = (extra.map Extra.attributes).getD []
  span : d.span = none

structure IsCodeError (tree : Tree) (name : String) (code pos : Int) (descr : String) : Prop where
  form : InForm 4 4 tree
  name : Has Tree.IsText tree "name" 0 name
  code : Has Tree.IsInteger tree "code" 1 code
  pos : Has Tree.IsInteger tree "pos" 2 pos
  descr : Has Tree.IsText tree "descr" 3 descr

structure IsStream (tree : Tree) (name : Option String) (descr : String) : Prop where
  form : InForm 2 2 tree
  name : MayHave Tree.IsText tree "name" 0 name
  descr : Has Tree.IsText tree "descr" 1 descr

/--
A line without its outer blanks, and what it says.  An error with a code has its description as
message, and a message about the run without a name goes by its tag.
-/
inductive Conforms : List Char → Report → Prop where
  | finding {line : List Char} {tree : Tree} {d : Diagnostic} :
      tagMark.isPrefixOf line = false → Denotes line tree → IsFinding tree d →
        Conforms line (.diagnostic d)
  | codeError {body : List Char} {tree : Tree} {name descr : String} {code pos : Int} :
      Denotes body tree → IsCodeError tree name code pos descr →
        Conforms ("JSON-ERC-".toList ++ body)
          (.diagnostic ⟨.error, descr, none,
            [.word pos, .title (name ++ " (code " ++ toString code ++ ")")], none⟩)
  | stream {tag body : List Char} {tree : Tree} {name : Option String} {descr : String} :
      '-' ∉ tag → tag ≠ "ERC".toList → Denotes body tree → IsStream tree name descr →
        Conforms ("JSON-".toList ++ (tag ++ '-' :: body))
          (.stream (classOf (String.ofList tag)) (name.getD (String.ofList tag)) descr)

/-! ## Hints -/

def Extra.values (extra : Extra) : List Value :=
  [(extra.left.map .integer).getD .null, (extra.right.map .integer).getD .null,
    (extra.title.map .text).getD .null, (extra.quantifiersRemoved.map .integer).getD .null,
    (extra.whileRule.map .text).getD .null]

def Extra.value (extra : Extra) : Value :=
  .record extra.values

theorem textOf?_getD (s : Option String) : textOf? ((s.map Value.text).getD .null) = s := by
  cases s <;> rfl

theorem textOf_text (s : String) : textOf (.text s) = s := rfl

theorem integerOf?_getD (n : Option Int) : integerOf? ((n.map Value.integer).getD .null) = n := by
  cases n <;> rfl

theorem extraOf?_value (extra : Extra) : extraOf? extra.value = some extra := by
  simp [Extra.value, Extra.values, extraOf?, textOf?_getD, integerOf?_getD]

theorem extraOf?_getD (extra : Option Extra) :
    extraOf? ((extra.map Extra.value).getD .null) = extra := by
  cases extra with
  | none => rfl
  | some extra => exact extraOf?_value extra

def extraClauses : List Clause :=
  [optionalClause "offsetLeft" Json.exact_readInteger,
   optionalClause "offsetRight" Json.exact_readInteger,
   optionalClause "title" Json.exact_readText,
   optionalClause "quantifiersRemoved" Json.exact_readInteger,
   optionalClause "whileRule" Json.exact_readText]

theorem nodup_extraClauses : (extraClauses.map fun clause => clause.field.name).Nodup := by decide

/-- What is read of the hints is what their fields have. -/
theorem isRecord_extra {tree : Tree} {values : List Value} :
    IsRecord extraClauses tree values ↔ ∃ extra, IsExtra tree extra ∧ values = extra.values := by
  constructor
  · intro h
    have hlength := h.length_eq
    -- A list may not lack the last of the hints, so it has them all.
    have hform : InForm 5 5 tree := h.inForm (i := 4) rfl rfl
    have hfound := (Json.isRecord_iff.1 h).2
    match values, hlength with
    | [_, _, _, _, _], _ =>
        rcases hfound with ⟨h₀, h₁, h₂, h₃, h₄, -⟩
        rcases (found_optional hform (by decide)).1 h₀ with ⟨left, hleft, rfl⟩
        rcases (found_optional hform (by decide)).1 h₁ with ⟨right, hright, rfl⟩
        rcases (found_optional hform (by decide)).1 h₂ with ⟨title, htitle, rfl⟩
        rcases (found_optional hform (by decide)).1 h₃ with ⟨quantifiers, hquantifiers, rfl⟩
        rcases (found_optional hform (by decide)).1 h₄ with ⟨rule, hrule, rfl⟩
        exact ⟨⟨left, right, title, quantifiers, rule⟩,
          ⟨hform, hleft, hright, htitle, hquantifiers, hrule⟩, rfl⟩
  · rintro ⟨extra, hextra, rfl⟩
    have hform := hextra.form
    exact Json.isRecord_iff.2 ⟨hform.of_le (Nat.zero_le 5),
      (found_optional hform (by decide)).2 ⟨_, hextra.left, rfl⟩,
      (found_optional hform (by decide)).2 ⟨_, hextra.right, rfl⟩,
      (found_optional hform (by decide)).2 ⟨_, hextra.title, rfl⟩,
      (found_optional hform (by decide)).2 ⟨_, hextra.quantifiersRemoved, rfl⟩,
      (found_optional hform (by decide)).2 ⟨_, hextra.whileRule, rfl⟩, trivial⟩

theorem sound_readExtra : Json.Sound readExtra (Held IsExtra Extra.value) := by
  intro c v c' h
  rcases Json.exists_of_bind_eq_ok h with ⟨⟨values, behind⟩, hread, hdone⟩
  cases hdone
  rcases Json.sound_readRecord nodup_extraClauses _ _ _ _ hread with
    ⟨t, tree, hblank, htree, hrecord⟩
  rcases isRecord_extra.1 hrecord with ⟨extra, hextra, rfl⟩
  exact ⟨t, tree, hblank, htree, extra, hextra, rfl⟩

theorem complete_readExtra : Json.Complete readExtra (Held IsExtra Extra.value) := by
  rintro tree v t t' r place ⟨extra, hextra, rfl⟩ hblank htree hends
  have hrecord : IsRecord extraClauses tree extra.values := isRecord_extra.2 ⟨extra, hextra, rfl⟩
  rcases Json.complete_readRecord nodup_extraClauses "struct WireExtra" tree _ t t' r place hrecord
    hblank htree hends with ⟨place', hread⟩
  refine ⟨place', ?_⟩
  have hfields : extraFields = extraClauses.map Clause.field := rfl
  rw [readExtra, hfields, hread]
  rfl

theorem exact_readExtra : Exact readExtra (Held IsExtra Extra.value) where
  sound := sound_readExtra
  complete := complete_readExtra
  not_null := by
    rintro v ⟨extra, hextra, -⟩
    rcases hextra.form with ⟨members, hobject, -⟩ | ⟨items, hlist, -⟩
    · cases hobject
    · cases hlist

/-! ## Findings -/

def findingClauses : List Clause :=
  [requiredClause "level" Json.exact_readText, omissibleClause "timestamp" Json.exact_readText,
   requiredClause "message" Json.exact_readText, omissibleClause "extra" exact_readExtra]

theorem isRecord_finding {tree : Tree} {values : List Value} :
    IsRecord findingClauses tree values ↔
      ∃ level timestamp message extra, InForm 3 4 tree ∧ Has Tree.IsText tree "level" 0 level ∧
        MayHave Tree.IsText tree "timestamp" 1 timestamp ∧
        Has Tree.IsText tree "message" 2 message ∧ MayHave IsExtra tree "extra" 3 extra ∧
        values = [.text level, (timestamp.map .text).getD .null, .text message,
          (extra.map Extra.value).getD .null] := by
  constructor
  · intro h
    have hlength := h.length_eq
    -- The message is the last field that a list may not lack.
    have hform : InForm 3 4 tree := h.inForm (i := 2) rfl rfl
    have hfound := (Json.isRecord_iff.1 h).2
    match values, hlength with
    | [_, _, _, _], _ =>
        rcases hfound with ⟨h₀, h₁, h₂, h₃, -⟩
        rcases found_required.1 h₀ with ⟨level, hlevel, rfl⟩
        rcases found_omissible.1 h₁ with ⟨timestamp, htimestamp, rfl⟩
        rcases found_required.1 h₂ with ⟨message, hmessage, rfl⟩
        rcases found_omissible.1 h₃ with ⟨extra, hextra, rfl⟩
        exact ⟨level, timestamp, message, extra, hform, hlevel, htimestamp, hmessage, hextra, rfl⟩
  · rintro ⟨level, timestamp, message, extra, hform, hlevel, htimestamp, hmessage, hextra, rfl⟩
    exact Json.isRecord_iff.2 ⟨hform.of_le (Nat.zero_le 3), found_required.2 ⟨level, hlevel, rfl⟩,
      found_omissible.2 ⟨timestamp, htimestamp, rfl⟩, found_required.2 ⟨message, hmessage, rfl⟩,
      found_omissible.2 ⟨extra, hextra, rfl⟩, trivial⟩

theorem mem_of_ofTag? {level : String} {severity : Severity}
    (h : Severity.ofTag? level = some severity) :
    level ∈ ["INFO", "WARN", "ERR", "ERROR", "DEBUG"] := by
  unfold Severity.ofTag? at h
  split_ifs at h with hinfo hwarn herror hdebug
  · simp [hinfo]
  · simp [hwarn]
  · rcases herror with rfl | rfl <;> simp
  · simp [hdebug]

theorem decodeFinding_iff {body : List Char} {report : Report} :
    decodeFinding body = .ok report ↔
      ∃ tree d, report = .diagnostic d ∧ Denotes body tree ∧ IsFinding tree d := by
  have hnodup : (findingClauses.map fun clause => clause.field.name).Nodup := by decide
  constructor
  · intro h
    cases hread : Json.readWhole (Json.readRecord "struct WireRecord" findingFields) body with
    | error fault => simp [decodeFinding, hread] at h
    | ok values =>
        rcases (Json.readWhole_readRecord_iff hnodup _).1 hread with ⟨tree, hbody, hrecord⟩
        rcases isRecord_finding.1 hrecord with
          ⟨level, timestamp, message, extra, hform, hlevel, htimestamp, hmessage, hextra, rfl⟩
        cases htag : Severity.ofTag? level with
        | none => simp [decodeFinding, hread, findingOf, textOf_text, htag] at h
        | some severity =>
            simp only [decodeFinding, hread, findingOf, textOf_text, htag, textOf?_getD,
              extraOf?_getD] at h
            cases h
            exact ⟨tree, _, rfl, hbody, hform, ⟨level, mem_of_ofTag? htag, hlevel, htag⟩,
              htimestamp, hmessage, ⟨extra, hextra, rfl⟩, rfl⟩
  · rintro ⟨tree, ⟨severity, message, timestamp, attributes, span⟩, rfl, hbody, hform,
      ⟨level, -, hlevel, htag⟩, htimestamp, hmessage, ⟨extra, hextra, hattributes⟩, hspan⟩
    have hread : Json.readWhole (Json.readRecord "struct WireRecord" findingFields) body = .ok _ :=
      (Json.readWhole_readRecord_iff hnodup _).2 ⟨tree, hbody, isRecord_finding.2
        ⟨level, timestamp, message, extra, hform, hlevel, htimestamp, hmessage, hextra, rfl⟩⟩
    simp only [decodeFinding, hread, findingOf, textOf_text, htag, textOf?_getD, extraOf?_getD]
    dsimp only at hattributes hspan
    rw [hattributes, hspan]

/-! ## Errors with a code -/

def codeErrorClauses : List Clause :=
  [requiredClause "name" Json.exact_readText, requiredClause "code" Json.exact_readInteger,
   requiredClause "pos" Json.exact_readInteger, requiredClause "descr" Json.exact_readText]

theorem isRecord_codeError {tree : Tree} {values : List Value} :
    IsRecord codeErrorClauses tree values ↔ ∃ name code pos descr,
      IsCodeError tree name code pos descr ∧
        values = [.text name, .integer code, .integer pos, .text descr] := by
  constructor
  · intro h
    have hlength := h.length_eq
    have hform : InForm 4 4 tree := h.inForm (i := 3) rfl rfl
    have hfound := (Json.isRecord_iff.1 h).2
    match values, hlength with
    | [_, _, _, _], _ =>
        rcases hfound with ⟨h₀, h₁, h₂, h₃, -⟩
        rcases found_required.1 h₀ with ⟨name, hname, rfl⟩
        rcases found_required.1 h₁ with ⟨code, hcode, rfl⟩
        rcases found_required.1 h₂ with ⟨pos, hpos, rfl⟩
        rcases found_required.1 h₃ with ⟨descr, hdescr, rfl⟩
        exact ⟨name, code, pos, descr, ⟨hform, hname, hcode, hpos, hdescr⟩, rfl⟩
  · rintro ⟨name, code, pos, descr, ⟨hform, hname, hcode, hpos, hdescr⟩, rfl⟩
    exact Json.isRecord_iff.2 ⟨hform.of_le (Nat.zero_le 4), found_required.2 ⟨name, hname, rfl⟩,
      found_required.2 ⟨code, hcode, rfl⟩, found_required.2 ⟨pos, hpos, rfl⟩,
      found_required.2 ⟨descr, hdescr, rfl⟩, trivial⟩

theorem decodeCodeError_iff {body : List Char} {report : Report} :
    decodeCodeError body = .ok report ↔
      ∃ tree name code pos descr, Denotes body tree ∧ IsCodeError tree name code pos descr ∧
        report = .diagnostic ⟨.error, descr, none,
          [.word pos, .title (name ++ " (code " ++ toString code ++ ")")], none⟩ := by
  have hnodup : (codeErrorClauses.map fun clause => clause.field.name).Nodup := by decide
  constructor
  · intro h
    cases hread : Json.readWhole (Json.readRecord "struct CodeError" codeErrorFields) body with
    | error fault => simp [decodeCodeError, hread] at h
    | ok values =>
        rcases (Json.readWhole_readRecord_iff hnodup _).1 hread with ⟨tree, hbody, hrecord⟩
        rcases isRecord_codeError.1 hrecord with ⟨name, code, pos, descr, herror, rfl⟩
        simp only [decodeCodeError, hread] at h
        cases h
        exact ⟨tree, name, code, pos, descr, hbody, herror, rfl⟩
  · rintro ⟨tree, name, code, pos, descr, hbody, herror, rfl⟩
    have hread : Json.readWhole (Json.readRecord "struct CodeError" codeErrorFields) body = .ok _ :=
      (Json.readWhole_readRecord_iff hnodup _).2
        ⟨tree, hbody, isRecord_codeError.2 ⟨name, code, pos, descr, herror, rfl⟩⟩
    simp only [decodeCodeError, hread]
    rfl

/-! ## Messages about the run -/

def streamClauses : List Clause :=
  [omissibleClause "name" Json.exact_readText, requiredClause "descr" Json.exact_readText]

theorem isRecord_stream {tree : Tree} {values : List Value} :
    IsRecord streamClauses tree values ↔ ∃ name descr,
      IsStream tree name descr ∧ values = [(name.map .text).getD .null, .text descr] := by
  constructor
  · intro h
    have hlength := h.length_eq
    have hform : InForm 2 2 tree := h.inForm (i := 1) rfl rfl
    have hfound := (Json.isRecord_iff.1 h).2
    match values, hlength with
    | [_, _], _ =>
        rcases hfound with ⟨h₀, h₁, -⟩
        rcases found_omissible.1 h₀ with ⟨name, hname, rfl⟩
        rcases found_required.1 h₁ with ⟨descr, hdescr, rfl⟩
        exact ⟨name, descr, ⟨hform, hname, hdescr⟩, rfl⟩
  · rintro ⟨name, descr, ⟨hform, hname, hdescr⟩, rfl⟩
    exact Json.isRecord_iff.2 ⟨hform.of_le (Nat.zero_le 2), found_omissible.2 ⟨name, hname, rfl⟩,
      found_required.2 ⟨descr, hdescr, rfl⟩, trivial⟩

theorem decodeStream_iff {tag : String} {body : List Char} {report : Report} :
    decodeStream tag body = .ok report ↔
      ∃ tree name descr, Denotes body tree ∧ IsStream tree name descr ∧
        report = .stream (classOf tag) (name.getD tag) descr := by
  have hnodup : (streamClauses.map fun clause => clause.field.name).Nodup := by decide
  constructor
  · intro h
    cases hread : Json.readWhole (Json.readRecord "struct StreamRecord" streamFields) body with
    | error fault => simp [decodeStream, hread] at h
    | ok values =>
        rcases (Json.readWhole_readRecord_iff hnodup _).1 hread with ⟨tree, hbody, hrecord⟩
        rcases isRecord_stream.1 hrecord with ⟨name, descr, hstream, rfl⟩
        simp only [decodeStream, hread, textOf?_getD] at h
        cases h
        exact ⟨tree, name, descr, hbody, hstream, rfl⟩
  · rintro ⟨tree, name, descr, hbody, hstream, rfl⟩
    have hread : Json.readWhole (Json.readRecord "struct StreamRecord" streamFields) body = .ok _ :=
      (Json.readWhole_readRecord_iff hnodup _).2
        ⟨tree, hbody, isRecord_stream.2 ⟨name, descr, hstream, rfl⟩⟩
    simp only [decodeStream, hread, textOf?_getD]
    rfl

/-! ## Lines -/

theorem decodeTagged_conforms {rest : List Char} {report : Report}
    (h : decodeTagged rest = .ok report) : Conforms ("JSON-".toList ++ rest) report := by
  by_cases hmem : '-' ∈ rest
  · rcases List.eq_append_cons_of_mem hmem with ⟨tag, body, rfl, htag⟩
    rw [decodeTagged_append htag] at h
    split_ifs at h with herc
    · rcases decodeCodeError_iff.1 h with ⟨tree, name, code, pos, descr, hdenotes, hrecord, rfl⟩
      rw [herc]
      exact .codeError hdenotes hrecord
    · rcases decodeStream_iff.1 h with ⟨tree, name, descr, hdenotes, hrecord, rfl⟩
      exact .stream htag herc hdenotes hrecord
  · -- Without a hyphen there is a tag and no body.
    have hdrop : rest.dropWhile (· != '-') = [] := by
      rw [List.dropWhile_eq_nil_iff]
      intro c hc
      have hne : c ≠ '-' := fun heq => hmem (heq ▸ hc)
      simpa using hne
    simp [decodeTagged, hdrop] at h

theorem decodeTrimmed_append (rest : List Char) :
    decodeTrimmed ("JSON-".toList ++ rest) = decodeTagged rest := by
  simp [decodeTrimmed, tagMark_eq]

theorem decodeTrimmed_iff {line : List Char} {report : Report} :
    decodeTrimmed line = .ok report ↔ Conforms line report := by
  constructor
  · intro h
    cases hmark : tagMark.isPrefixOf line with
    | true =>
        rcases List.isPrefixOf_iff_prefix.1 hmark with ⟨rest, rfl⟩
        rw [tagMark, decodeTrimmed_append] at h
        exact decodeTagged_conforms h
    | false =>
        rw [decodeTrimmed, hmark] at h
        rcases decodeFinding_iff.1 h with ⟨tree, d, rfl, hdenotes, hrecord⟩
        exact .finding hmark hdenotes hrecord
  · intro h
    cases h with
    | finding hmark hdenotes hrecord =>
        rw [decodeTrimmed, hmark]
        exact decodeFinding_iff.2 ⟨_, _, rfl, hdenotes, hrecord⟩
    | @codeError body _ _ _ _ _ hdenotes hrecord =>
        have hline : "JSON-ERC-".toList ++ body =
            "JSON-".toList ++ (['E', 'R', 'C'] ++ '-' :: body) := rfl
        rw [hline, decodeTrimmed_append, decodeTagged_append (by decide), if_pos rfl]
        exact decodeCodeError_iff.2 ⟨_, _, _, _, _, hdenotes, hrecord, rfl⟩
    | @stream tag _ _ _ _ htag herc hdenotes hrecord =>
        have herc : tag ≠ ['E', 'R', 'C'] := herc
        rw [decodeTrimmed_append, decodeTagged_append htag, if_neg herc]
        exact decodeStream_iff.2 ⟨_, _, _, hdenotes, hrecord, rfl⟩

/--
The lines that are accepted are the records of the schema, and they say what the records say.
Their form is an object or, beyond the documented schema, a list of the fields' values.  Any other
line comes back as it was.
-/
theorem decode_conforms (line : String) :
    (∀ report, decode line = .ok report ↔ Conforms (Text.trim line.toList) report) ∧
      ((∃ report, Conforms (Text.trim line.toList) report) ∨
        ∃ reason, decode line = .error ⟨line, reason⟩) := by
  cases h : decodeTrimmed (Text.trim line.toList) with
  | ok found =>
      refine ⟨fun report => ?_, .inl ⟨found, decodeTrimmed_iff.1 h⟩⟩
      rw [← decodeTrimmed_iff, decode, h]
      simp
  | error reason =>
      refine ⟨fun report => ?_, .inr ⟨reason, by rw [decode, h]⟩⟩
      rw [← decodeTrimmed_iff, decode, h]
      simp

/-- A list is accepted, although its text is no object. -/
theorem decode_of_list :
    decode "[\"INFO\",null,\"m\"]" = .ok (.diagnostic ⟨.info, "m", none, [], none⟩) ∧
      ∀ members, ¬ Json.Spells (Text.trim "[\"INFO\",null,\"m\"]".toList) (.object members) := by
  refine ⟨by decide, ?_⟩
  rintro members ⟨t, r, hblank, hobject, -⟩
  have htrim : Text.trim "[\"INFO\",null,\"m\"]".toList = '[' :: "\"INFO\",null,\"m\"]".toList := by
    decide
  rw [htrim] at hblank
  rw [hblank.eq_of_not_blank (by decide)] at hobject
  cases hobject

end Wire
end VerifierSession
