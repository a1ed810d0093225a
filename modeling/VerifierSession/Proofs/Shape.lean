import Mathlib.Data.List.Forall2
import Mathlib.Tactic.SplitIfs
import VerifierSession.Proofs.Written

/-!
# Records of known fields

What it is for a value of the grammar to be a record, apart from any reader.

* `Sound`, `Complete`: what a reader accepts is of a shape, and all of that shape is accepted;
* `Clause`: a field, whose reader is both;
* `IsRecord`: every field has a value among the members of an object, or as an item of a list;
* `isRecord_iff`: every field is found at its name or at its index;
* `Gathered`: what members put into the slots of the fields that they name.
-/

namespace VerifierSession
namespace Json

/-! ## Values of one kind -/

/-- What a reader accepts is a value of the grammar, and of a shape. -/
def Sound {α : Type} (read : Reader α) (shape : Tree → α → Prop) : Prop :=
  ∀ c v c', read c = .ok (v, c') →
    ∃ t tree, Blank c.rest t ∧ Derives (.value tree) t c'.rest ∧ shape tree v

/-- A reader accepts every value of a shape, whatever ends it. -/
def Complete {α : Type} (read : Reader α) (shape : Tree → α → Prop) : Prop :=
  ∀ tree v t t' r place, shape tree v → Blank t t' → Derives (.value tree) t' r → Ends r →
    ∃ place', read ⟨t, place⟩ = .ok (v, ⟨r, place'⟩)

/-- A value that is a string, with its characters. -/
def Tree.IsText (tree : Tree) (s : String) : Prop :=
  ∃ letters, tree = .text letters ∧ charsOf? letters = some s.toList

/-- A value that is an integer of 64 bits with a sign. -/
def Tree.IsInteger (tree : Tree) (n : Int) : Prop :=
  tree = .number (digits n) ∧ -(Decimal.twoTo 63 : Int) ≤ n ∧ n < (Decimal.twoTo 63 : Int)

/-- A shape whose values are held as those of a field. -/
def Held {α : Type} (shape : Tree → α → Prop) (hold : α → Value) (tree : Tree) (v : Value) : Prop :=
  ∃ a, shape tree a ∧ v = hold a

def OrNull (shape : Tree → Value → Prop) (tree : Tree) (v : Value) : Prop :=
  (tree = .null ∧ v = .null) ∨ shape tree v

/-! ## Fields -/

/-- A field, and the shape of what is read for it. -/
structure Clause where
  field : Field
  shape : Tree → Value → Prop
  sound : Sound field.read shape
  complete : Complete field.read shape

def valuesOf (name : String) (members : List (List Letter × Tree)) : List Tree :=
  (members.filter fun m => charsOf? m.1 = some name.toList).map Prod.snd

/-- What an object's members say about a field: one alone names it, or none does. -/
def Clause.Named (clause : Clause) (members : List (List Letter × Tree)) (v : Value) : Prop :=
  (∃ tree, valuesOf clause.field.name members = [tree] ∧ clause.shape tree v) ∨
    (valuesOf clause.field.name members = [] ∧ clause.field.unnamed = some v)

/-- The items of a list are the values of the fields in their order, and the last may be missing. -/
inductive Listed : List Clause → List Tree → List Value → Prop where
  | nil : Listed [] [] []
  | item {clause : Clause} {clauses : List Clause} {tree : Tree} {trees : List Tree} {v : Value}
      {values : List Value} :
      clause.shape tree v → Listed clauses trees values →
        Listed (clause :: clauses) (tree :: trees) (v :: values)
  | missing {clause : Clause} {clauses : List Clause} {v : Value} {values : List Value} :
      clause.field.unlisted = some v → Listed clauses [] values →
        Listed (clause :: clauses) [] (v :: values)

/-- The names of all members stand for characters. -/
def Legible (members : List (List Letter × Tree)) : Prop :=
  ∀ m ∈ members, ∃ name, charsOf? m.1 = some name

theorem legible_nil : Legible [] := by
  intro m hm
  cases hm

theorem Legible.cons {letters : List Letter} {name : List Char} {tree : Tree}
    {members : List (List Letter × Tree)} (h : Legible members)
    (hletters : charsOf? letters = some name) : Legible ((letters, tree) :: members) := by
  intro m hm
  rcases List.mem_cons.1 hm with rfl | hlater
  · exact ⟨name, hletters⟩
  · exact h m hlater

/-- A record as an object or as a list. -/
def IsRecord (clauses : List Clause) (tree : Tree) (values : List Value) : Prop :=
  (∃ members, tree = .object members ∧ Legible members ∧
    List.Forall₂ (fun clause v => clause.Named members v) clauses values) ∨
  ∃ items, tree = .list items ∧ Listed clauses items values

/-- What a record has for a field: the member that alone has its name, or the item at its index. -/
def At (tree : Tree) (name : String) (index : Nat) (found : Option Tree) : Prop :=
  match tree with
  | .object members => valuesOf name members = found.toList
  | .list items => items[index]? = found
  | _ => False

/-- What stands for a field that is missing, by the form of the record. -/
def Clause.missing? (clause : Clause) (tree : Tree) : Option Value :=
  match tree with
  | .object _ => clause.field.unnamed
  | _ => clause.field.unlisted

/-- What a field has in a record, or what stands for it. -/
def Clause.Found (clause : Clause) (tree : Tree) (index : Nat) (v : Value) : Prop :=
  (∃ t, At tree clause.field.name index (some t) ∧ clause.shape t v) ∨
    (At tree clause.field.name index none ∧ clause.missing? tree = some v)

/-- What all fields have in a record, from an index on. -/
def FoundFrom (tree : Tree) (index : Nat) (clauses : List Clause) (values : List Value) : Prop :=
  match clauses, values with
  | [], [] => True
  | clause :: clauses, v :: values =>
      clause.Found tree index v ∧ FoundFrom tree (index + 1) clauses values
  | _, _ => False

theorem foundFrom_object {clauses : List Clause} {members : List (List Letter × Tree)}
    {values : List Value} (index : Nat) :
    FoundFrom (.object members) index clauses values ↔
      List.Forall₂ (fun clause v => clause.Named members v) clauses values := by
  induction clauses generalizing index values with
  | nil => cases values <;> simp [FoundFrom]
  | cons clause clauses ih =>
      cases values with
      | nil => simp [FoundFrom]
      | cons v values =>
          rw [FoundFrom, List.forall₂_cons, ih]
          rfl

theorem Listed.length_le {clauses : List Clause} {items : List Tree} {values : List Value}
    (h : Listed clauses items values) : items.length ≤ clauses.length := by
  induction h with
  | nil => exact Nat.le_refl 0
  | item _ _ ih => exact Nat.succ_le_succ ih
  | missing _ _ ih => exact Nat.zero_le _

theorem Listed.foundFrom {clauses : List Clause} {items later : List Tree} {values : List Value}
    {index : Nat} (hlater : ∀ i, items[index + i]? = later[i]?)
    (h : Listed clauses later values) : FoundFrom (.list items) index clauses values := by
  induction h generalizing index with
  | nil => trivial
  | item hshape _ ih =>
      refine ⟨.inl ⟨_, hlater 0, hshape⟩, ih fun i => ?_⟩
      rw [Nat.add_right_comm, Nat.add_assoc, hlater (i + 1), List.getElem?_cons_succ]
  | missing hmissing _ ih =>
      refine ⟨.inr ⟨hlater 0, hmissing⟩, ih fun i => ?_⟩
      rw [Nat.add_right_comm, Nat.add_assoc, hlater (i + 1), List.getElem?_nil, List.getElem?_nil]

/-- A list with no item too many has the values that are found in it. -/
theorem listed_of_foundFrom {clauses : List Clause} {items later : List Tree}
    {values : List Value} {index : Nat} (hlater : ∀ i, items[index + i]? = later[i]?)
    (hlength : later.length ≤ clauses.length)
    (h : FoundFrom (.list items) index clauses values) : Listed clauses later values := by
  induction clauses generalizing index later values with
  | nil =>
      cases List.eq_nil_of_length_eq_zero (Nat.le_zero.1 hlength)
      cases values with
      | nil => exact .nil
      | cons v values => cases h
  | cons clause clauses ih =>
      -- What is found at the index is the first of the later items, or there are none.
      have hnext : ∀ i, items[index + 1 + i]? = later[i + 1]? := fun i => by
        rw [Nat.add_right_comm, Nat.add_assoc, hlater (i + 1)]
      cases values with
      | nil => cases h
      | cons v values =>
          rcases h with ⟨⟨tree, htree, hshape⟩ | ⟨hnone, hmissing⟩, hrest⟩
          · have hfirst : later[0]? = some tree := (hlater 0).symm.trans htree
            cases later with
            | nil => cases hfirst
            | cons first later =>
                cases hfirst
                exact .item hshape (ih hnext (Nat.le_of_succ_le_succ hlength) hrest)
          · have hfirst : later[0]? = none := (hlater 0).symm.trans hnone
            cases later with
            | nil => exact .missing hmissing (ih hnext (Nat.zero_le _) hrest)
            | cons first later => cases hfirst

/-- The two forms of a record: an object, or a list with so many items at least and at most. -/
def InForm (least most : Nat) (tree : Tree) : Prop :=
  (∃ members, tree = .object members ∧ Legible members) ∨
    ∃ items, tree = .list items ∧ least ≤ items.length ∧ items.length ≤ most

theorem InForm.of_le {least least' most : Nat} {tree : Tree} (h : InForm least most tree)
    (hle : least' ≤ least) : InForm least' most tree := by
  rcases h with hobject | ⟨items, rfl, hleast, hmost⟩
  · exact .inl hobject
  · exact .inr ⟨items, rfl, Nat.le_trans hle hleast, hmost⟩

/-- A record has one of the two forms, and every field is found in it. -/
theorem isRecord_iff {clauses : List Clause} {tree : Tree} {values : List Value} :
    IsRecord clauses tree values ↔
      InForm 0 clauses.length tree ∧ FoundFrom tree 0 clauses values := by
  have hstart : ∀ items : List Tree, ∀ i, items[0 + i]? = items[i]? :=
    fun items i => by rw [Nat.zero_add]
  constructor
  · rintro (⟨members, rfl, hlegible, hnamed⟩ | ⟨items, rfl, hlisted⟩)
    · exact ⟨.inl ⟨members, rfl, hlegible⟩, (foundFrom_object 0).2 hnamed⟩
    · exact ⟨.inr ⟨items, rfl, Nat.zero_le _, hlisted.length_le⟩, hlisted.foundFrom (hstart items)⟩
  · rintro ⟨⟨members, rfl, hlegible⟩ | ⟨items, rfl, -, hlength⟩, hfound⟩
    · exact .inl ⟨members, rfl, hlegible, (foundFrom_object 0).1 hfound⟩
    · exact .inr ⟨items, rfl, listed_of_foundFrom (hstart items) hlength hfound⟩

/-- A list goes on at least to the last field that it may not lack. -/
theorem Listed.lt_length {clauses : List Clause} {items : List Tree} {values : List Value}
    {i : Nat} {clause : Clause} (h : Listed clauses items values) (hi : clauses[i]? = some clause)
    (hunlisted : clause.field.unlisted = none) : i < items.length := by
  induction h generalizing i with
  | nil => cases hi
  | item _ _ ih =>
      cases i with
      | zero => exact Nat.succ_pos _
      | succ i => exact Nat.succ_lt_succ (ih hi)
  | missing hmissing _ ih =>
      cases i with
      | zero =>
          cases hi
          cases hunlisted.symm.trans hmissing
      | succ i => exact absurd (ih hi) (Nat.not_lt_zero i)

theorem IsRecord.inForm {clauses : List Clause} {tree : Tree} {values : List Value} {i : Nat}
    {clause : Clause} (h : IsRecord clauses tree values) (hi : clauses[i]? = some clause)
    (hunlisted : clause.field.unlisted = none) : InForm (i + 1) clauses.length tree := by
  rcases h with ⟨members, rfl, hlegible, -⟩ | ⟨items, rfl, hlisted⟩
  · exact .inl ⟨members, rfl, hlegible⟩
  · exact .inr ⟨items, rfl, hlisted.lt_length hi hunlisted, hlisted.length_le⟩

theorem Listed.length_eq {clauses : List Clause} {items : List Tree} {values : List Value}
    (h : Listed clauses items values) : values.length = clauses.length := by
  induction h with
  | nil => rfl
  | item _ _ ih => exact congrArg Nat.succ ih
  | missing _ _ ih => exact congrArg Nat.succ ih

theorem IsRecord.length_eq {clauses : List Clause} {tree : Tree} {values : List Value}
    (h : IsRecord clauses tree values) : values.length = clauses.length := by
  rcases h with ⟨members, -, -, hnamed⟩ | ⟨items, -, hlisted⟩
  · exact hnamed.length_eq.symm
  · exact hlisted.length_eq

/-! ## Names -/

theorem valuesOf_cons (name : String) (letters : List Letter) (tree : Tree)
    (members : List (List Letter × Tree)) :
    valuesOf name ((letters, tree) :: members) =
      if charsOf? letters = some name.toList then tree :: valuesOf name members
      else valuesOf name members := by
  by_cases hname : charsOf? letters = some name.toList <;> simp [valuesOf, hname]

theorem valuesOf_cons_of_ne {letters : List Letter} {name other : String}
    (hletters : charsOf? letters = some name.toList) (hne : name ≠ other) (tree : Tree)
    (members : List (List Letter × Tree)) :
    valuesOf other ((letters, tree) :: members) = valuesOf other members := by
  rw [valuesOf_cons, if_neg]
  intro hsame
  exact hne (String.toList_inj.1 (Option.some.inj (hletters.symm.trans hsame)))

theorem findField?_some {fields : List Field} {name : String} {i : Nat} {field : Field}
    (h : findField? fields name = some (i, field)) : fields[i]? = some field ∧ field.name = name := by
  induction fields generalizing i with
  | nil => cases h
  | cons first fields ih =>
      rw [findField?] at h
      split_ifs at h with hname
      · cases h
        exact ⟨rfl, hname⟩
      · rcases Option.map_eq_some_iff.1 h with ⟨⟨j, found⟩, hfound, hpair⟩
        cases hpair
        exact ih hfound

theorem findField?_none {fields : List Field} {name : String} (h : findField? fields name = none) :
    ∀ field ∈ fields, field.name ≠ name := by
  induction fields with
  | nil => simp
  | cons first fields ih =>
      rw [findField?] at h
      split_ifs at h with hname
      rw [Option.map_eq_none_iff] at h
      intro field hfield
      rcases List.mem_cons.1 hfield with rfl | hlater
      · exact hname
      · exact ih h field hlater

/-! ## Slots -/

/--
What reading the members has put into the slot of a field, which was empty or filled before: the
value of the one member that names it, or nothing.
-/
inductive Clause.Gathered (clause : Clause) : Option Value → List Tree → Option Value → Prop where
  | kept (slot : Option Value) : Clause.Gathered clause slot [] slot
  | taken {tree : Tree} {v : Value} :
      clause.shape tree v → Clause.Gathered clause none [tree] (some v)

/-- A slot that is filled stays as it is, and no member names the field again. -/
theorem Clause.Gathered.of_filled {clause : Clause} {v : Value} {values : List Tree}
    {slot : Option Value} (h : clause.Gathered (some v) values slot) :
    values = [] ∧ slot = some v := by
  cases h
  exact ⟨rfl, rfl⟩

section Members

variable {clauses : List Clause} {slots slots' : List (Option Value)}
  {members : List (List Letter × Tree)}

/-- What reading the members has put into the slots of all fields. -/
def Gathered (clauses : List Clause) (slots : List (Option Value))
    (members : List (List Letter × Tree)) (slots' : List (Option Value)) : Prop :=
  slots'.length = slots.length ∧ ∀ (i : Nat) (clause : Clause), clauses[i]? = some clause →
    clause.Gathered slots[i]?.join (valuesOf clause.field.name members) slots'[i]?.join

theorem gathered_nil (clauses : List Clause) (slots : List (Option Value)) :
    Gathered clauses slots [] slots :=
  ⟨rfl, fun _ _ _ => .kept _⟩

theorem gathered_unknown {letters : List Letter} {name : String} {tree : Tree}
    (hletters : charsOf? letters = some name.toList)
    (hname : ∀ clause ∈ clauses, clause.field.name ≠ name) :
    Gathered clauses slots ((letters, tree) :: members) slots' ↔
      Gathered clauses slots members slots' := by
  refine and_congr_right fun _ => forall_congr' fun i => forall_congr' fun clause =>
    forall_congr' fun hclause => ?_
  rw [valuesOf_cons_of_ne hletters (hname clause (List.mem_of_getElem? hclause)).symm]

theorem name_ne_of_nodup {i j : Nat} {clause other : Clause}
    (hnodup : (clauses.map fun clause => clause.field.name).Nodup)
    (hclause : clauses[i]? = some clause) (hother : clauses[j]? = some other) (hij : i ≠ j) :
    clause.field.name ≠ other.field.name := by
  intro hsame
  have hnames : (clauses.map fun clause => clause.field.name)[i]? =
      (clauses.map fun clause => clause.field.name)[j]? := by
    rw [List.getElem?_map, List.getElem?_map, hclause, hother]
    exact congrArg some hsame
  have hlength : i < (clauses.map fun clause => clause.field.name).length := by
    rw [List.length_map]
    exact (List.getElem?_eq_some_iff.1 hclause).1
  exact hij ((List.getElem?_inj hlength hnodup).1 hnames)

/-- A member that names a field fills its slot, and no later one names the field again. -/
theorem gathered_known {letters : List Letter} {tree : Tree} {i : Nat} {clause : Clause}
    (hnodup : (clauses.map fun clause => clause.field.name).Nodup)
    (hletters : charsOf? letters = some clause.field.name.toList)
    (hclause : clauses[i]? = some clause) (hi : i < slots.length) :
    Gathered clauses slots ((letters, tree) :: members) slots' ↔
      slots[i]?.join = none ∧
        ∃ v, clause.shape tree v ∧ Gathered clauses (slots.set i (some v)) members slots' := by
  constructor
  · rintro ⟨hlength, hall⟩
    -- The slot cannot have been kept, since there is a value for it, so it was empty.
    have hfirst := hall i clause hclause
    rw [valuesOf_cons, if_pos hletters] at hfirst
    generalize hslot : slots[i]?.join = slot at hfirst
    generalize hslot' : slots'[i]?.join = slot' at hfirst
    generalize hvalues : tree :: valuesOf clause.field.name members = values at hfirst
    cases hfirst with
    | kept => cases hvalues
    | @taken _ v hshape =>
        rcases List.cons.inj hvalues with ⟨rfl, hnone⟩
        refine ⟨rfl, v, hshape, by rw [hlength, List.length_set], fun j other hother => ?_⟩
        by_cases hij : i = j
        · subst hij
          cases Option.some.inj (hother.symm.trans hclause)
          rw [List.getElem?_set_self hi, Option.join_some, hslot', hnone]
          exact .kept _
        · have hlater := hall j other hother
          rw [valuesOf_cons_of_ne hletters (name_ne_of_nodup hnodup hclause hother hij)] at hlater
          rwa [List.getElem?_set_ne hij]
  · rintro ⟨hempty, v, hshape, hlength, hall⟩
    refine ⟨by rw [hlength, List.length_set], fun j other hother => ?_⟩
    have hlater := hall j other hother
    by_cases hij : i = j
    · subst hij
      cases Option.some.inj (hother.symm.trans hclause)
      rw [valuesOf_cons, if_pos hletters, hempty]
      rw [List.getElem?_set_self hi, Option.join_some] at hlater
      rcases hlater.of_filled with ⟨hvalues, hslot⟩
      rw [hvalues, hslot]
      exact .taken hshape
    · rw [valuesOf_cons_of_ne hletters (name_ne_of_nodup hnodup hclause hother hij)]
      rwa [List.getElem?_set_ne hij] at hlater

end Members

end Json
end VerifierSession
