import VerifierSession.Proofs.Schema

/-!
# The members of a record

The order of the members of a record says nothing, and neither do members that no field has the
name of, or `null` where a field may be missing.

* `Tree.Same`: the same value, however its strings and keys are escaped;
* `SameMembers`: two objects have the same for the fields, those that must be there and those that
  may be `null` or missing;
* `Respects`: a shape makes no difference between related values;
* `SameMembers.has`, `SameMembers.mayHave`: what is read of one object is read of the other;
* `decode_same_members`: so two lines with the same tag say the same, or neither is accepted.
-/

namespace VerifierSession
namespace Json

/-! ## Values -/

/-- The same value, up to how strings and keys are escaped. -/
inductive Tree.Same : Tree → Tree → Prop where
  | null : Same .null .null
  | boolean (b : Bool) : Same (.boolean b) (.boolean b)
  | number (written : List Char) : Same (.number written) (.number written)
  | text {letters letters' : List Letter} :
      charsOf? letters = charsOf? letters' → Same (.text letters) (.text letters')
  | list {items items' : List Tree} :
      List.Forall₂ Same items items' → Same (.list items) (.list items')
  | object {members members' : List (List Letter × Tree)} :
      (members.map fun m => charsOf? m.1) = (members'.map fun m => charsOf? m.1) →
      List.Forall₂ Same (members.map Prod.snd) (members'.map Prod.snd) →
        Same (.object members) (.object members')

def Tree.isNull : Tree → Bool
  | .null => true
  | _ => false

def present (trees : List Tree) : List Tree :=
  trees.filter fun tree => !tree.isNull

/--
Two objects have the same for fields that must be there, and for fields that may be `null` or
missing and are named no more than once.  The keys of both stand for characters, or those of
neither do.
-/
structure SameMembers (same : Tree → Tree → Prop) (needed optional : List String)
    (members members' : List (List Letter × Tree)) : Prop where
  legible : Legible members ↔ Legible members'
  needed : ∀ name ∈ needed, List.Forall₂ same (valuesOf name members) (valuesOf name members')
  once : ∀ name ∈ optional,
    (valuesOf name members).length ≤ 1 ∧ (valuesOf name members').length ≤ 1
  optional : ∀ name ∈ optional,
    List.Forall₂ same (present (valuesOf name members)) (present (valuesOf name members'))

/-! ## Shapes -/

/-- A shape makes no difference between related values. -/
def Respects {α : Type} (same : Tree → Tree → Prop) (shape : Tree → α → Prop) : Prop :=
  ∀ t t' a, same t t' → (shape t a ↔ shape t' a)

section Respects

variable {α : Type} {same : Tree → Tree → Prop} {shape : Tree → α → Prop}

theorem Respects.forall₂ (h : Respects same shape) {ts ts' : List Tree}
    (hsame : List.Forall₂ same ts ts') (as : List α) :
    List.Forall₂ shape ts as ↔ List.Forall₂ shape ts' as := by
  induction hsame generalizing as with
  | nil => rfl
  | @cons t t' ts ts' hfirst _ ih =>
      cases as with
      | nil => simp
      | cons a as => rw [List.forall₂_cons, List.forall₂_cons, h t t' a hfirst, ih]

theorem respects_isText : Respects Tree.Same Tree.IsText := by
  intro t t' s h
  cases h with
  | text hchars => simp [Tree.IsText, hchars]
  | _ => simp [Tree.IsText]

theorem respects_isInteger : Respects Tree.Same Tree.IsInteger := by
  intro t t' n h
  cases h <;> simp [Tree.IsInteger]

end Respects

theorem forall₂_valuesOf {members members' : List (List Letter × Tree)} (name : String)
    (hkeys : (members.map fun m => charsOf? m.1) = (members'.map fun m => charsOf? m.1))
    (hvalues : List.Forall₂ Tree.Same (members.map Prod.snd) (members'.map Prod.snd)) :
    List.Forall₂ Tree.Same (valuesOf name members) (valuesOf name members') := by
  induction members generalizing members' with
  | nil =>
      cases List.map_eq_nil_iff.1 hkeys.symm
      exact .nil
  | cons m members ih =>
      cases members' with
      | nil => cases hkeys
      | cons m' members' =>
          obtain ⟨letters, tree⟩ := m
          obtain ⟨letters', tree'⟩ := m'
          obtain ⟨hkey, hkeys⟩ := List.cons.inj hkeys
          obtain ⟨hvalue, hvalues⟩ := List.forall₂_cons.1 hvalues
          dsimp only at hkey hvalue
          -- Either both members have the name or neither has it.
          rw [valuesOf_cons, valuesOf_cons, hkey]
          split
          · exact .cons hvalue (ih hkeys hvalues)
          · exact ih hkeys hvalues

theorem legible_iff_of_keys {members members' : List (List Letter × Tree)}
    (hkeys : (members.map fun m => charsOf? m.1) = (members'.map fun m => charsOf? m.1)) :
    Legible members ↔ Legible members' := by
  have hlegible : ∀ ms : List (List Letter × Tree),
      Legible ms ↔ ∀ key ∈ ms.map (fun m => charsOf? m.1), ∃ name, key = some name := by
    intro ms
    simp only [Legible, List.forall_mem_map]
  rw [hlegible, hlegible, hkeys]

instance (members : List (List Letter × Tree)) : Decidable (Legible members) :=
  decidable_of_iff (∀ m ∈ members, (charsOf? m.1).isSome = true) (by
    simp only [Legible, Option.isSome_iff_exists])

theorem forall₂_present {trees trees' : List Tree} (h : List.Forall₂ Tree.Same trees trees') :
    List.Forall₂ Tree.Same (present trees) (present trees') := by
  refine List.rel_filter ?_ h
  intro t t' hsame
  cases hsame <;> rfl

end Json

namespace Wire

open Json (Tree Letter Legible Respects SameMembers valuesOf present At InForm)

attribute [mk_iff] IsExtra IsFinding IsCodeError IsStream

/-! ## Fields -/

/-- Two records have the same for a field, which may be `null` or missing. -/
def AlikeAt (same : Tree → Tree → Prop) (tree tree' : Tree) (name : String) (index : Nat) : Prop :=
  ∃ ts ts', (∀ found, At tree name index found ↔ ts = found.toList) ∧
    (∀ found, At tree' name index found ↔ ts' = found.toList) ∧
    (ts.length ≤ 1 ↔ ts'.length ≤ 1) ∧ List.Forall₂ same (present ts) (present ts')

section Fields

variable {α : Type} {same : Tree → Tree → Prop} {shape : Tree → α → Prop} {tree tree' : Tree}
  {name : String} {index : Nat}

theorem has_iff {ts : List Tree} (hat : ∀ found, At tree name index found ↔ ts = found.toList)
    {a : α} : Has shape tree name index a ↔ List.Forall₂ shape ts [a] := by
  simp only [Has, hat, Option.toList_some]
  constructor
  · rintro ⟨t, rfl, ha⟩
    exact .cons ha .nil
  · intro h
    cases h with
    | cons ha hrest =>
        cases hrest
        exact ⟨_, rfl, ha⟩

theorem mayHave_iff {ts : List Tree} (hat : ∀ found, At tree name index found ↔ ts = found.toList)
    (hnull : ∀ a, ¬ shape .null a) {a : Option α} :
    MayHave shape tree name index a ↔
      ts.length ≤ 1 ∧ List.Forall₂ shape (present ts) a.toList := by
  -- No value, one that may be null, or more: these are the cases that `MayHave` tells apart.
  rcases ts with _ | ⟨t, _ | ⟨t', ts⟩⟩
  · cases a <;> simp [MayHave, Has, hat, present]
  · by_cases ht : t = .null
    · subst ht
      have hpresent : present [.null] = [] := rfl
      cases a <;> simp [MayHave, Has, hat, hpresent, hnull]
    · have hpresent : present [t] = [t] := by
        cases t <;> first | exact absurd rfl ht | rfl
      cases a <;> simp [MayHave, Has, hat, hpresent, ht]
  · cases a <;> simp [MayHave, Has, hat]

theorem AlikeAt.mayHave (h : AlikeAt same tree tree' name index) (hshape : Respects same shape)
    (hnull : ∀ a, ¬ shape .null a) (a : Option α) :
    MayHave shape tree name index a ↔ MayHave shape tree' name index a := by
  obtain ⟨ts, ts', hat, hat', honce, hpresent⟩ := h
  rw [mayHave_iff hat hnull, mayHave_iff hat' hnull, honce, hshape.forall₂ hpresent]

end Fields

theorem forall₂_item {same : Tree → Tree → Prop} {items items' : List Tree}
    (h : List.Forall₂ same items items') (index : Nat) :
    List.Forall₂ same items[index]?.toList items'[index]?.toList := by
  induction h generalizing index with
  | nil => simp
  | cons hfirst _ ih =>
      cases index with
      | zero => simpa using hfirst
      | succ index => simpa using ih index

/-- Where the same value is a record, it has the same for each field. -/
theorem alikeAt_of_same {tree tree' : Tree} {least most : Nat} (h : tree.Same tree')
    (hform : InForm least most tree) (name : String) (index : Nat) :
    AlikeAt Tree.Same tree tree' name index := by
  rcases hform with ⟨members, rfl, -⟩ | ⟨items, rfl, -⟩
  · cases h with
    | object hkeys hvalues =>
        have hsame := Json.forall₂_valuesOf name hkeys hvalues
        exact ⟨_, _, fun _ => Iff.rfl, fun _ => Iff.rfl, by rw [hsame.length_eq],
          Json.forall₂_present hsame⟩
  · cases h with
    | @list _ items' hitems =>
        have hat : ∀ (ts : List Tree) found,
            At (.list ts) name index found ↔ ts[index]?.toList = found.toList := by
          intro ts found
          cases hitem : ts[index]? <;> cases found <;> simp [At, hitem]
        have hsame := forall₂_item hitems index
        exact ⟨_, _, hat items, hat items', by rw [hsame.length_eq], Json.forall₂_present hsame⟩

theorem inForm_congr_of_same {tree tree' : Tree} {least most : Nat} (h : tree.Same tree') :
    InForm least most tree ↔ InForm least most tree' := by
  cases h with
  | object hkeys _ => simp [InForm, Json.legible_iff_of_keys hkeys]
  | list hitems => simp [InForm, hitems.length_eq]
  | _ => simp [InForm]

section SameMembers

variable {α : Type} {same : Tree → Tree → Prop} {shape : Tree → α → Prop}
  {needed optional : List String} {members members' : List (List Letter × Tree)}
  (h : SameMembers same needed optional members members')
include h

theorem inForm_congr (least most : Nat) :
    InForm least most (.object members) ↔ InForm least most (.object members') := by
  simp [InForm, h.legible]

theorem has_congr (name : String) (hname : name ∈ needed) (hshape : Respects same shape)
    (index : Nat) (a : α) :
    Has shape (.object members) name index a ↔ Has shape (.object members') name index a := by
  rw [has_iff fun _ => Iff.rfl, has_iff fun _ => Iff.rfl, hshape.forall₂ (h.needed name hname)]

theorem alikeAt_of_optional (name : String) (hname : name ∈ optional) (index : Nat) :
    AlikeAt same (.object members) (.object members') name index :=
  ⟨_, _, fun _ => Iff.rfl, fun _ => Iff.rfl,
    iff_of_true (h.once name hname).1 (h.once name hname).2, h.optional name hname⟩

end SameMembers

/-! ## Records -/

def hintNames : List String :=
  ["offsetLeft", "offsetRight", "title", "quantifiersRemoved", "whileRule"]

/-- The same hints: the same value, or two objects with the same for each hint. -/
def SameHints (tree tree' : Tree) : Prop :=
  tree.Same tree' ∨ ∃ members members', tree = .object members ∧ tree' = .object members' ∧
    SameMembers Tree.Same [] hintNames members members'

theorem not_isText_null (s : String) : ¬ Tree.IsText .null s := by
  simp [Tree.IsText]

theorem not_isInteger_null (n : Int) : ¬ Tree.IsInteger .null n := by
  simp [Tree.IsInteger]

theorem not_isExtra_null (extra : Extra) : ¬ IsExtra .null extra := by
  rintro ⟨hform, -⟩
  simp [InForm] at hform

theorem isExtra_congr {tree tree' : Tree} (hform : InForm 5 5 tree ↔ InForm 5 5 tree')
    (halike : InForm 5 5 tree → ∀ name ∈ hintNames, ∀ index,
      AlikeAt Tree.Same tree tree' name index) (extra : Extra) :
    IsExtra tree extra ↔ IsExtra tree' extra := by
  rw [isExtra_iff, isExtra_iff, ← hform]
  -- Both are records of this form, so field after field can be compared.
  refine and_congr_right fun h => ?_
  have hleft := (halike h "offsetLeft" (by decide) 0).mayHave Json.respects_isInteger
    not_isInteger_null extra.left
  have hright := (halike h "offsetRight" (by decide) 1).mayHave Json.respects_isInteger
    not_isInteger_null extra.right
  have htitle := (halike h "title" (by decide) 2).mayHave Json.respects_isText not_isText_null
    extra.title
  have hquantifiers := (halike h "quantifiersRemoved" (by decide) 3).mayHave
    Json.respects_isInteger not_isInteger_null extra.quantifiersRemoved
  have hrule := (halike h "whileRule" (by decide) 4).mayHave Json.respects_isText not_isText_null
    extra.whileRule
  rw [hleft, hright, htitle, hquantifiers, hrule]

theorem respects_isExtra : Respects SameHints IsExtra := by
  rintro t t' extra (hsame | ⟨members, members', rfl, rfl, hsame⟩)
  · exact isExtra_congr (inForm_congr_of_same hsame)
      (fun hform name _ index => alikeAt_of_same hsame hform name index) extra
  · exact isExtra_congr (inForm_congr hsame 5 5)
      (fun _ name hname index => alikeAt_of_optional hsame name hname index) extra

theorem respects_isText : Respects SameHints Tree.IsText := by
  rintro t t' s (hsame | ⟨members, members', rfl, rfl, -⟩)
  · exact Json.respects_isText t t' s hsame
  · simp [Tree.IsText]

theorem isFinding_congr {members members' : List (List Letter × Tree)}
    (h : SameMembers SameHints ["level", "message"] ["timestamp", "extra"] members members')
    (d : Diagnostic) : IsFinding (.object members) d ↔ IsFinding (.object members') d := by
  have htimestamp := (alikeAt_of_optional h "timestamp" (by decide) 1).mayHave
    respects_isText not_isText_null
  have hextra := (alikeAt_of_optional h "extra" (by decide) 3).mayHave
    respects_isExtra not_isExtra_null
  have hlevel := has_congr h "level" (by decide) respects_isText 0
  have hmessage := has_congr h "message" (by decide) respects_isText 2
  simp only [isFinding_iff, inForm_congr h, hlevel, htimestamp, hmessage, hextra]

theorem isCodeError_congr {members members' : List (List Letter × Tree)}
    (h : SameMembers Tree.Same ["name", "code", "pos", "descr"] [] members members')
    (name : String) (code pos : Int) (descr : String) :
    IsCodeError (.object members) name code pos descr ↔
      IsCodeError (.object members') name code pos descr := by
  rw [isCodeError_iff, isCodeError_iff, inForm_congr h,
    has_congr h "name" (by decide) Json.respects_isText,
    has_congr h "code" (by decide) Json.respects_isInteger,
    has_congr h "pos" (by decide) Json.respects_isInteger,
    has_congr h "descr" (by decide) Json.respects_isText]

theorem isStream_congr {members members' : List (List Letter × Tree)}
    (h : SameMembers Tree.Same ["descr"] ["name"] members members') (name : Option String)
    (descr : String) :
    IsStream (.object members) name descr ↔ IsStream (.object members') name descr := by
  rw [isStream_iff, isStream_iff, inForm_congr h,
    (alikeAt_of_optional h "name" (by decide) 0).mayHave Json.respects_isText not_isText_null,
    has_congr h "descr" (by decide) Json.respects_isText]

/-! ## Lines -/

/-- A line is an object, behind a tag if it has one, up to outer blanks. -/
inductive Carries (line : String) : Option (List Char) → List (List Letter × Tree) → Prop where
  | untagged {members : List (List Letter × Tree)} :
      Json.Spells (Text.trim line.toList) (.object members) → Carries line none members
  | tagged {tag body : List Char} {members : List (List Letter × Tree)} :
      Text.trim line.toList = "JSON-".toList ++ (tag ++ '-' :: body) → '-' ∉ tag →
      Json.Spells body (.object members) → Carries line (some tag) members

/-- Two objects behind the same tag, or behind none, have the same for each field of the record. -/
def SameRecord (tag : Option (List Char)) (members members' : List (List Letter × Tree)) : Prop :=
  match tag with
  | none => SameMembers SameHints ["level", "message"] ["timestamp", "extra"] members members'
  | some tag =>
      if tag = "ERC".toList then
        SameMembers Tree.Same ["name", "code", "pos", "descr"] [] members members'
      else SameMembers Tree.Same ["descr"] ["name"] members members'

theorem decode_eq_ok_iff {line : String} {report : Report} :
    decode line = .ok report ↔ decodeTrimmed (Text.trim line.toList) = .ok report := by
  rw [(decode_conforms line).1, decodeTrimmed_iff]

theorem not_tagMark_of_spells {text : List Char} {members : List (List Letter × Tree)}
    (h : Json.Spells text (.object members)) : tagMark.isPrefixOf text = false := by
  by_contra hmark
  obtain ⟨rest, rfl⟩ := List.isPrefixOf_iff_prefix.1 (Bool.not_eq_false _ ▸ hmark)
  obtain ⟨t, r, hblank, hobject, -⟩ := h
  -- An object begins with its bracket, and the mark does not.
  rw [tagMark_eq, List.cons_append] at hblank
  rw [hblank.eq_of_not_blank (by decide)] at hobject
  cases hobject

theorem decode_untagged {line : String} {members : List (List Letter × Tree)}
    (h : Json.Spells (Text.trim line.toList) (.object members)) (report : Report) :
    decode line = .ok report ↔ ∃ d, report = .diagnostic d ∧ IsFinding (.object members) d := by
  rw [decode_eq_ok_iff, decodeTrimmed, not_tagMark_of_spells h]
  simp only [Bool.false_eq_true, if_false, decodeFinding_iff]
  constructor
  · rintro ⟨tree, d, rfl, hdenotes, hfinding⟩
    rw [(hdenotes _).1 h]
    exact ⟨d, rfl, hfinding⟩
  · rintro ⟨d, rfl, hfinding⟩
    exact ⟨_, d, rfl, h.denotes, hfinding⟩

section Tagged

variable {line : String} {tag body : List Char} {members : List (List Letter × Tree)}
  (hline : Text.trim line.toList = "JSON-".toList ++ (tag ++ '-' :: body)) (htag : '-' ∉ tag)
  (h : Json.Spells body (.object members))
include hline htag h

theorem decode_codeError (herc : tag = "ERC".toList) (report : Report) :
    decode line = .ok report ↔ ∃ name code pos descr,
      IsCodeError (.object members) name code pos descr ∧
        report = .diagnostic ⟨.error, descr, none,
          [.word pos, .title (name ++ " (code " ++ toString code ++ ")")], none⟩ := by
  have herc : tag = ['E', 'R', 'C'] := herc
  rw [decode_eq_ok_iff, hline, decodeTrimmed_append, decodeTagged_append htag, if_pos herc,
    decodeCodeError_iff]
  constructor
  · rintro ⟨tree, name, code, pos, descr, hdenotes, herror, rfl⟩
    rw [(hdenotes _).1 h]
    exact ⟨name, code, pos, descr, herror, rfl⟩
  · rintro ⟨name, code, pos, descr, herror, rfl⟩
    exact ⟨_, name, code, pos, descr, h.denotes, herror, rfl⟩

theorem decode_stream (herc : tag ≠ "ERC".toList) (report : Report) :
    decode line = .ok report ↔ ∃ name descr, IsStream (.object members) name descr ∧
      report = .stream (classOf (String.ofList tag)) (name.getD (String.ofList tag)) descr := by
  have herc : tag ≠ ['E', 'R', 'C'] := herc
  rw [decode_eq_ok_iff, hline, decodeTrimmed_append, decodeTagged_append htag, if_neg herc,
    decodeStream_iff]
  constructor
  · rintro ⟨tree, name, descr, hdenotes, hstream, rfl⟩
    rw [(hdenotes _).1 h]
    exact ⟨name, descr, hstream, rfl⟩
  · rintro ⟨name, descr, hstream, rfl⟩
    exact ⟨_, name, descr, h.denotes, hstream, rfl⟩

end Tagged

theorem toOption_eq_of_iff {ε α : Type} {x y : Except ε α} (h : ∀ a, x = .ok a ↔ y = .ok a) :
    x.toOption = y.toOption := by
  cases x with
  | ok a => rw [(h a).1 rfl]
  | error e =>
      cases y with
      | ok a => cases (h a).2 rfl
      | error e' => rfl

/--
Two objects with the same for each field of the record, behind the same tag or behind none, say the
same, or neither is accepted.
-/
theorem decode_same_members {line line' : String} {tag : Option (List Char)}
    {members members' : List (List Letter × Tree)} (h : Carries line tag members)
    (h' : Carries line' tag members') (hsame : SameRecord tag members members') :
    (decode line).toOption = (decode line').toOption := by
  apply toOption_eq_of_iff
  intro report
  cases h with
  | untagged hobject =>
      cases h' with
      | untagged hobject' =>
          rw [decode_untagged hobject, decode_untagged hobject']
          simp only [isFinding_congr hsame]
  | @tagged tag body _ hline htag hbody =>
      cases h' with
      | tagged hline' _ hbody' =>
          by_cases herc : tag = "ERC".toList
          · rw [SameRecord, if_pos herc] at hsame
            rw [decode_codeError hline htag hbody herc, decode_codeError hline' htag hbody' herc]
            simp only [isCodeError_congr hsame]
          · rw [SameRecord, if_neg herc] at hsame
            rw [decode_stream hline htag hbody herc, decode_stream hline' htag hbody' herc]
            simp only [isStream_congr hsame]

/-! ## Objects with other members -/

def plain (s : String) : List Letter :=
  s.toList.map .char

def isPlain (c : Char) : Bool :=
  c != '"' && c != '\\' && decide (0x20 ≤ c.toNat)

theorem quoted_plain (s : String) (hs : s.toList.all isPlain = true) (r : List Char) :
    Json.Quoted ('"' :: (s.toList ++ '"' :: r)) (plain s) r := by
  refine ⟨_, rfl, ?_⟩
  unfold plain
  generalize s.toList = cs at hs
  induction cs with
  | nil => exact .nil _
  | cons c cs ih =>
      rw [List.all_cons, Bool.and_eq_true] at hs
      obtain ⟨⟨hquote, hslash⟩, hcontrol⟩ : (c ≠ '"' ∧ c ≠ '\\') ∧ 0x20 ≤ c.toNat := by
        simpa [isPlain] using hs.1
      exact .plain hquote hslash hcontrol (ih hs.2)

theorem derives_plain (name s : String) (hname : name.toList.all isPlain = true)
    (hs : s.toList.all isPlain = true) (r : List Char) :
    Json.Derives (.member (plain name, .text (plain s)))
      ('"' :: (name.toList ++ '"' :: ':' :: '"' :: (s.toList ++ '"' :: r))) r :=
  .member (quoted_plain name hname _) (.nil _) (.nil _) (.text (quoted_plain s hs r))

def shortMembers : List (List Letter × Tree) :=
  [(plain "level", .text (plain "INFO")), (plain "message", .text (plain "m"))]

theorem carries_short :
    Carries "\x7b\"level\":\"INFO\",\"message\":\"m\"\x7d" none shortMembers := by
  refine .untagged ⟨_, [], .nil _, ?_, .nil _⟩
  exact .object (.nil _) (derives_plain "level" "INFO" rfl rfl _)
    (.nextMember (.nil _) (.nil _) (derives_plain "message" "m" rfl rfl _)
      (.lastMember (.nil _)))

/-- The same members in another order, with one that is unknown and one that is `null`. -/
def longMembers : List (List Letter × Tree) :=
  [(plain "message", .text [.unit 0x6d]), (plain "x", .list [.object []]),
    (plain "timestamp", .null), (plain "level", .text (plain "INFO"))]

theorem carries_long :
    Carries ("\x7b\"message\":\"\\u006d\",\"x\":[\x7b\x7d], \"timestamp\":null," ++
      "\"level\":\"INFO\"\x7d") none longMembers := by
  refine .untagged ⟨_, [], .nil _, ?_, .nil _⟩
  have hmessage : ∀ r, Json.Quoted ('"' :: ("\\u006d".toList ++ '"' :: r)) [.unit 0x6d] r :=
    fun r => ⟨_, rfl, @Json.Spelled.unit ['0', '0', '6', 'd'] _ _ _ _ rfl rfl (.nil _)⟩
  refine .object (.nil _) (.member (quoted_plain "message" rfl _) (.nil _) (.nil _)
    (.text (hmessage _))) (.nextMember (.nil _) (.nil _) (.member (quoted_plain "x" rfl _)
      (.nil _) (.nil _) (.list (.nil _) (.noMembers (.nil _)) (.lastItem (.nil _)))) ?_)
  refine .nextMember (.nil _) (.cons rfl (.nil _)) (.member
    (quoted_plain "timestamp" rfl _) (.nil _) (.nil _) (.null _)) ?_
  exact .nextMember (.nil _) (.nil _) (derives_plain "level" "INFO" rfl rfl _)
    (.lastMember (.nil _))

theorem decode_of_long :
    (decode "\x7b\"level\":\"INFO\",\"message\":\"m\"\x7d").toOption =
      (decode ("\x7b\"message\":\"\\u006d\",\"x\":[\x7b\x7d], \"timestamp\":null," ++
        "\"level\":\"INFO\"\x7d")).toOption := by
  refine decode_same_members carries_short carries_long ?_
  refine ⟨by decide, ?_, ?_, ?_⟩
  · intro name hname
    rcases List.mem_pair.1 hname with rfl | rfl
    · exact .cons (.inl (.text rfl)) .nil
    · exact .cons (.inl (.text rfl)) .nil
  · decide
  · intro name hname
    rcases List.mem_pair.1 hname with rfl | rfl
    · exact .nil
    · exact .nil

/--
A member whose key stands for no text has the name of no field, and yet its object fails.
-/
theorem decode_of_unpaired_key :
    let line := "\x7b\"level\":\"INFO\",\"message\":\"m\"\x7d"
    let longer := "\x7b\"level\":\"INFO\",\"message\":\"m\",\"\\ud800\":1\x7d"
    let members := shortMembers ++ [([.unit 0xD800], .number ['1'])]
    Carries line none shortMembers ∧ Carries longer none members ∧
      (∀ name, valuesOf name members = valuesOf name shortMembers) ∧
      decode line = .ok (.diagnostic ⟨.info, "m", none, [], none⟩) ∧
      (decode longer).toOption = none := by
  refine ⟨carries_short, ?_, ?_, by decide, by decide⟩
  · have hkey : ∀ r, Json.Quoted ('"' :: ("\\ud800".toList ++ '"' :: r)) [.unit 0xD800] r :=
      fun r => ⟨_, rfl, @Json.Spelled.unit ['d', '8', '0', '0'] _ _ _ _ rfl rfl (.nil _)⟩
    have hone : Json.IsNumber ['1'] := ⟨[], ['1'], [], [], rfl, .inl rfl,
      .inr ⟨_, [], rfl, by decide, rfl, by simp [Json.AllDigits]⟩, .inl rfl, .inl rfl⟩
    refine .untagged ⟨_, [], .nil _, ?_, .nil _⟩
    exact .object (.nil _) (derives_plain "level" "INFO" rfl rfl _)
      (.nextMember (.nil _) (.nil _) (derives_plain "message" "m" rfl rfl _)
        (.nextMember (.nil _) (.nil _) (.member (hkey _) (.nil _) (.nil _) (.number _ hone))
          (.lastMember (.nil _))))
  · intro name
    simp only [valuesOf, List.filter_append, List.map_append]
    exact List.append_nil _

end Wire
end VerifierSession
