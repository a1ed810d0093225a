import VerifierSession.Proofs.Accepting
import VerifierSession.Proofs.Reading

/-!
# Records that are accepted

The readers leave out nothing that the grammar has: a text with a record of known fields is read,
and what is found in the record is what they answer with.

* `Cursor.skipBlank_of_blank`: white space ends at one place, which readers stop at;
* `exact_readText`, `exact_readInteger`, `complete_readNullable`: values of one kind;
* `readMembers_complete`, `readItems_complete`: members and items in turn;
* `complete_readRecord`: a record in either form;
* `readWhole_readRecord_iff`: a whole text, from both sides.
-/

namespace VerifierSession
namespace Json

/-! ## Blanks -/

theorem Cursor.skipBlank_of_blank {t r : List Char} (h : Blank t r)
    (hr : ∀ c ∈ r.head?, isJsonBlank c = false) (place : Place) :
    ∃ place', (Cursor.mk t place).skipBlank = ⟨r, place'⟩ := by
  induction h generalizing place with
  | nil r =>
      refine ⟨place, ?_⟩
      cases r with
      | nil => rfl
      | cons c r => exact skipBlank_cons (hr c rfl) r place
  | @cons c t r hc _ ih =>
      rcases ih hr (place.past c) with ⟨place', hlater⟩
      refine ⟨place', ?_⟩
      rw [← hlater]
      simp [skipBlank, skipWhile, hc]

theorem Cursor.skipBlank_of_mark {t r : List Char} {c : Char} (h : Blank t (c :: r))
    (hc : isJsonBlank c = false) (place : Place) :
    ∃ place', (Cursor.mk t place).skipBlank = ⟨c :: r, place'⟩ := by
  apply skipBlank_of_blank h
  rintro _ ⟨⟩
  exact hc

theorem Cursor.skipBlank_of_derives {v : Tree} {t t' r : List Char} (h : Blank t t')
    (hv : Derives (.value v) t' r) (place : Place) :
    ∃ place', (Cursor.mk t place).skipBlank = ⟨t', place'⟩ := by
  rcases hv.exists_startsWith with ⟨c, t', rfl, hc⟩
  exact skipBlank_of_mark h hc.not_blank place

/-! ## Values of one kind -/

theorem complete_readText : Complete readText (Held Tree.IsText .text) := by
  rintro tree v t t' r place ⟨s, ⟨letters, rfl, hchars⟩, rfl⟩ hblank htree -
  rcases Cursor.skipBlank_of_derives hblank htree place with ⟨p, hskip⟩
  cases htree with
  | text hquoted =>
      rcases hquoted with ⟨inner, rfl, hletters⟩
      rcases readQuotation_of_spelled hletters hchars (p.past '"') with ⟨place', hread⟩
      refine ⟨place', ?_⟩
      simp [readText, hskip, Cursor.advance, hread, bind, Except.bind, pure, Except.pure]

theorem complete_readInteger : Complete readInteger (Held Tree.IsInteger .integer) := by
  rintro tree v t t' r place ⟨n, ⟨rfl, hlow, hhigh⟩, rfl⟩ hblank htree hends
  rcases Cursor.skipBlank_of_derives hblank htree place with ⟨p, hskip⟩
  -- White space before the number is passed over once, and then there is none.
  have hread : readInteger ⟨t, place⟩ = readInteger ⟨t', p⟩ := by
    have hsame : (Cursor.mk t' p).skipBlank = (Cursor.mk t place).skipBlank := by
      rw [hskip]
      rcases htree.exists_startsWith with ⟨c, t'', rfl, hc⟩
      exact Cursor.skipBlank_cons hc.not_blank t'' p
    rw [readInteger, readInteger, hsame]
  rw [hread]
  cases htree with
  | number r hw => exact readInteger_of_ends hlow hhigh hends p

theorem complete_readNullable {read : Reader Value} {shape : Tree → Value → Prop}
    (hread : Complete read shape) (hnull : ∀ v, ¬ shape .null v) :
    Complete (readNullable read) (OrNull shape) := by
  intro tree v t t' r place hshape hblank htree hends
  rcases Cursor.skipBlank_of_derives hblank htree place with ⟨p, hskip⟩
  rcases hshape with ⟨rfl, rfl⟩ | hshape
  · cases htree
    refine ⟨(((p.past 'n').past 'u').past 'l').past 'l', ?_⟩
    simp [readNullable, hskip, Cursor.word, Cursor.advance, bind, Except.bind, pure, Except.pure]
  · rcases hread tree v t' t' r p hshape (.nil t') htree hends with ⟨place', hvalue⟩
    rcases htree.exists_startsWith with ⟨c, t'', rfl, hc⟩
    have hword : c ≠ 'n' := by
      rintro rfl
      cases Tree.StartsWith.same_kind (v := .null) rfl hc
      exact hnull v hshape
    refine ⟨place', ?_⟩
    simp [readNullable, hskip, hword, hvalue]

/-- A reader accepts the values of a shape and nothing else, and `null` is none of them. -/
structure Exact (read : Reader Value) (shape : Tree → Value → Prop) : Prop where
  sound : Sound read shape
  complete : Complete read shape
  not_null : ∀ v, ¬ shape .null v

theorem exact_readText : Exact readText (Held Tree.IsText .text) where
  sound := sound_readText
  complete := complete_readText
  not_null := by
    rintro v ⟨s, ⟨letters, hletters, -⟩, -⟩
    cases hletters

theorem exact_readInteger : Exact readInteger (Held Tree.IsInteger .integer) where
  sound := sound_readInteger
  complete := complete_readInteger
  not_null := by
    rintro v ⟨n, ⟨hnumber, -⟩, -⟩
    cases hnumber

/-! ## Members -/

theorem Spelled.length_le {t r : List Char} {letters : List Letter} (h : Spelled t letters r) :
    r.length ≤ t.length := by
  induction h with
  | nil => exact Nat.le_refl _
  | plain _ _ _ _ ih => exact Nat.le_succ_of_le ih
  | short _ _ ih => exact Nat.le_succ_of_le (Nat.le_succ_of_le ih)
  | unit _ _ _ ih =>
      simp only [List.length_cons, List.length_append]
      omega

theorem Blank.length_le {t r : List Char} (h : Blank t r) : r.length ≤ t.length := by
  induction h with
  | nil => exact Nat.le_refl _
  | cons _ _ ih => exact Nat.le_succ_of_le ih

theorem Quoted.length_lt {t r : List Char} {letters : List Letter} (h : Quoted t letters r) :
    r.length < t.length := by
  rcases h with ⟨inner, rfl, hletters⟩
  have hlength := hletters.length_le
  simp only [List.length_cons] at hlength ⊢
  omega

/-- How many characters a part takes at least, as far as its members go. -/
def Part.size (part : Part) : Nat :=
  match part with
  | .value (.object ms) => ms.length + 1
  | .value _ => 0
  | .moreItems _ => 0
  | .member _ => 1
  | .moreMembers ms => ms.length

theorem Derives.size_le {part : Part} {t r : List Char} (h : Derives part t r) :
    part.size + r.length ≤ t.length := by
  induction h with
  | null | true | false =>
      simp only [Part.size, List.length_cons]
      omega
  | number => simp [Part.size]
  | text hquoted =>
      have hlength := hquoted.length_lt
      simp only [Part.size]
      omega
  | noItems hclose | lastItem hclose | noMembers hclose | lastMember hclose =>
      have hlength := hclose.length_le
      simp only [Part.size, List.length_cons, List.length_nil] at hlength ⊢
      omega
  | list hblank _ _ ihv ihvs =>
      have hlength := hblank.length_le
      simp only [Part.size, List.length_cons] at ihv ihvs ⊢
      omega
  | nextItem hcomma hblank _ _ ihv ihvs =>
      have hbefore := hcomma.length_le
      have hlength := hblank.length_le
      simp only [Part.size, List.length_cons] at hbefore ihvs ⊢
      omega
  | object hblank _ _ ihm ihms =>
      have hlength := hblank.length_le
      simp only [Part.size, List.length_cons] at ihm ihms ⊢
      omega
  | member hname hcolon hblank _ ihv =>
      have hbefore := hname.length_lt
      have hmark := hcolon.length_le
      have hlength := hblank.length_le
      simp only [Part.size, List.length_cons] at hmark ⊢
      omega
  | nextMember hcomma hblank _ _ ihm ihms =>
      have hbefore := hcomma.length_le
      have hlength := hblank.length_le
      simp only [Part.size, List.length_cons] at hbefore ihm ihms ⊢
      omega

theorem MembersTo.blank_of_nil {first : Bool} {t r : List Char} (h : MembersTo first [] t r) :
    Blank t ('\x7d' :: r) := by
  cases first with
  | true =>
      cases h with
      | noMembers hclose => exact hclose
  | false =>
      cases h with
      | lastMember hclose => exact hclose

theorem MembersTo.of_cons {first : Bool} {letters : List Letter} {tree : Tree}
    {members : List (List Letter × Tree)} {t r : List Char}
    (h : MembersTo first ((letters, tree) :: members) t r) :
    ∃ t₀ t₁ t₂ t₃ t₄, (if first then Blank t t₀ else ∃ u, Blank t (',' :: u) ∧ Blank u t₀) ∧
      Quoted t₀ letters t₁ ∧ Blank t₁ (':' :: t₂) ∧ Blank t₂ t₃ ∧ Derives (.value tree) t₃ t₄ ∧
      MembersTo false members t₄ r := by
  cases first with
  | true =>
      cases h with
      | object hblank hmember hlater =>
          cases hmember with
          | member hname hcolon hbehind hvalue =>
              exact ⟨_, _, _, _, _, hblank, hname, hcolon, hbehind, hvalue, hlater⟩
  | false =>
      cases h with
      | nextMember hcomma hblank hmember hlater =>
          cases hmember with
          | member hname hcolon hbehind hvalue =>
              exact ⟨_, _, _, _, _, ⟨_, hcomma, hblank⟩, hname, hcolon, hbehind, hvalue, hlater⟩

theorem nextName_of_blank {t r : List Char} (h : Blank t ('\x7d' :: r)) (first : Bool)
    (place : Place) : ∃ place', nextName first ⟨t, place⟩ = .ok (none, ⟨'\x7d' :: r, place'⟩) := by
  rcases Cursor.skipBlank_of_mark h (by decide) place with ⟨p, hskip⟩
  exact ⟨p, by simp [nextName, hskip, pure, Except.pure]⟩

theorem nextName_of_quoted {first : Bool} {t t₀ t₁ : List Char} {letters : List Letter}
    {name : String}
    (hbefore : if first then Blank t t₀ else ∃ u, Blank t (',' :: u) ∧ Blank u t₀)
    (hname : Quoted t₀ letters t₁) (hchars : charsOf? letters = some name.toList) (place : Place) :
    ∃ place', nextName first ⟨t, place⟩ = .ok (some name, ⟨t₁, place'⟩) := by
  rcases hname with ⟨inner, rfl, hletters⟩
  cases first with
  | true =>
      rcases Cursor.skipBlank_of_mark hbefore (by decide) place with ⟨p, hskip⟩
      rcases readQuotation_of_spelled hletters hchars (p.past '"') with ⟨place', hread⟩
      refine ⟨place', ?_⟩
      simp [nextName, hskip, Cursor.advance, hread, bind, Except.bind, pure, Except.pure]
  | false =>
      rcases hbefore with ⟨u, hcomma, hblank⟩
      rcases Cursor.skipBlank_of_mark hcomma (by decide) place with ⟨p, hskip⟩
      rcases Cursor.skipBlank_of_mark hblank (by decide) (p.past ',') with ⟨p', hskip'⟩
      rcases readQuotation_of_spelled hletters hchars (p'.past '"') with ⟨place', hread⟩
      refine ⟨place', ?_⟩
      simp [nextName, hskip, hskip', Cursor.advance, hread, bind, Except.bind, pure, Except.pure]

theorem readColon_of_blank {t r : List Char} (h : Blank t (':' :: r)) (place : Place) :
    ∃ place', readColon ⟨t, place⟩ = .ok ⟨r, place'⟩ := by
  rcases Cursor.skipBlank_of_mark h (by decide) place with ⟨p, hskip⟩
  exact ⟨p.past ':', by simp [readColon, hskip, Cursor.advance, pure, Except.pure]⟩

section Members

variable {clauses : List Clause} {slots slots' : List (Option Value)}
  {members : List (List Letter × Tree)}

theorem Gathered.eq_of_nil (hlength : slots.length = clauses.length)
    (h : Gathered clauses slots [] slots') : slots' = slots := by
  apply List.ext_getElem h.1
  intro i hi' hi
  have hclause : clauses[i]? = some clauses[i] := List.getElem?_eq_getElem (hlength ▸ hi)
  have hslot := h.2 i _ hclause
  rw [List.getElem?_eq_getElem hi, List.getElem?_eq_getElem hi', Option.join_some,
    Option.join_some] at hslot
  generalize slots[i] = slot at hslot ⊢
  generalize slots'[i] = slot' at hslot ⊢
  cases hslot
  rfl

theorem readMembers_complete (hnodup : (clauses.map fun clause => clause.field.name).Nodup)
    {steps : Nat} {first : Bool} {t r : List Char} (hlength : slots.length = clauses.length)
    (hsteps : members.length < steps) (hmembers : MembersTo first members t r)
    (hlegible : Legible members) (h : Gathered clauses slots members slots') (place : Place) :
    ∃ place', readMembers (clauses.map Clause.field) steps first slots ⟨t, place⟩ =
      .ok (slots', ⟨'\x7d' :: r, place'⟩) := by
  induction members generalizing steps first slots t place with
  | nil =>
      rcases steps with _ | steps
      · cases hsteps
      rcases nextName_of_blank hmembers.blank_of_nil first place with ⟨place', hnext⟩
      refine ⟨place', ?_⟩
      rw [h.eq_of_nil hlength]
      simp [readMembers, hnext, bind, Except.bind, pure, Except.pure]
  | cons m members ih =>
      rcases m with ⟨letters, tree⟩
      rcases steps with _ | steps
      · cases hsteps
      have hsteps : members.length < steps := Nat.lt_of_succ_lt_succ hsteps
      rcases hmembers.of_cons with
        ⟨t₀, t₁, t₂, t₃, t₄, hbefore, hname, hcolon, hblank, hvalue, hlater⟩
      rcases hlegible (letters, tree) List.mem_cons_self with ⟨chars, hchars⟩
      -- A name that stands for no characters would be refused, even where nobody asks for it.
      have hlegible : Legible members := fun m hm => hlegible m (List.mem_cons_of_mem _ hm)
      have hends : Ends t₄ := Derives.ends_moreMembers hlater
      have hchars : charsOf? letters = some (String.ofList chars).toList := by
        rw [hchars, String.toList_ofList]
      rcases nextName_of_quoted hbefore hname hchars place with ⟨p₁, hnext⟩
      rcases readColon_of_blank hcolon p₁ with ⟨p₂, hcolon⟩
      cases hfind : findField? (clauses.map Clause.field) (String.ofList chars) with
      | none =>
          have hunknown : ∀ clause ∈ clauses, clause.field.name ≠ String.ofList chars :=
            fun clause hclause => findField?_none hfind clause.field (List.mem_map_of_mem hclause)
          have h := (gathered_unknown hchars hunknown).1 h
          rcases skimValue_of_derives hblank hvalue hends p₂ with ⟨p₃, hskim⟩
          rcases ih hlength hsteps hlater hlegible h p₃ with ⟨place', hread⟩
          refine ⟨place', ?_⟩
          simp [readMembers, hnext, hfind, hcolon, hskim, hread, bind, Except.bind]
      | some found =>
          rcases found with ⟨i, field⟩
          rcases findField?_some hfind with ⟨hfield, hsame⟩
          rw [List.getElem?_map, Option.map_eq_some_iff] at hfield
          rcases hfield with ⟨clause, hclause, rfl⟩
          have hi : i < slots.length := hlength ▸ (List.getElem?_eq_some_iff.1 hclause).1
          rw [← hsame] at hchars
          rcases (gathered_known hnodup hchars hclause hi).1 h with ⟨hempty, v, hshape, h⟩
          rcases clause.complete _ _ _ _ _ p₂ hshape hblank hvalue hends with ⟨p₃, hfill⟩
          have hlength : (slots.set i (some v)).length = clauses.length := by
            rw [List.length_set, hlength]
          rcases ih hlength hsteps hlater hlegible h p₃ with ⟨place', hread⟩
          refine ⟨place', ?_⟩
          simp [readMembers, hnext, hfind, hempty, hcolon, hfill, hread, bind, Except.bind]

theorem exists_slots_of_named {values : List Value}
    (h : List.Forall₂ (fun clause v => clause.Named members v) clauses values) :
    ∃ slots, Gathered clauses (clauses.map fun _ => none) members slots ∧
      fill (clauses.map Clause.field) slots = .ok values := by
  induction h with
  | nil => exact ⟨[], ⟨rfl, fun i clause hclause => by cases hclause⟩, rfl⟩
  | @cons clause v clauses values hfirst _ ih =>
      rcases ih with ⟨slots, ⟨hlength, hall⟩, hfill⟩
      have hslot : ∃ slot, clause.Gathered none (valuesOf clause.field.name members) slot ∧
          slot.or clause.field.unnamed = some v := by
        rcases hfirst with ⟨tree, htree, hshape⟩ | ⟨hnone, hunnamed⟩
        · exact ⟨some v, htree ▸ .taken hshape, rfl⟩
        · exact ⟨none, hnone ▸ .kept none, hunnamed⟩
      rcases hslot with ⟨slot, hslot, hv⟩
      refine ⟨slot :: slots, ⟨congrArg Nat.succ hlength, fun i other hother => ?_⟩, ?_⟩
      · cases i with
        | zero =>
            cases hother
            exact hslot
        | succ i => exact hall i other hother
      · simp [fill, hv, hfill, bind, Except.bind, pure, Except.pure]

theorem readObject_complete (hnodup : (clauses.map fun clause => clause.field.name).Nodup)
    {values : List Value} {t r : List Char} (hmembers : MembersTo true members t r)
    (hlegible : Legible members)
    (h : List.Forall₂ (fun clause v => clause.Named members v) clauses values) (place : Place) :
    ∃ place', readObject (clauses.map Clause.field) ⟨t, place⟩ = .ok (values, ⟨r, place'⟩) := by
  rcases exists_slots_of_named h with ⟨slots, hgathered, hfill⟩
  have hsize : members.length + 1 + r.length ≤ t.length + 1 := Derives.size_le hmembers
  -- As many steps as there are characters are enough, one more for the closing bracket.
  have hsteps : members.length < t.length + 1 := by omega
  rcases readMembers_complete hnodup (by simp) hsteps hmembers hlegible hgathered place with
    ⟨p, hread⟩
  refine ⟨p.past '\x7d', ?_⟩
  have hnone : ((clauses.map Clause.field).map fun _ => (none : Option Value)) =
      clauses.map fun _ => none := by
    rw [List.map_map]
    rfl
  simp only [readObject, bind, Except.bind]
  rw [hnone, hread]
  simp [hfill, leave_cons '\x7d' (by decide), pure, Except.pure]

end Members

/-! ## Items -/

theorem ItemsTo.blank_of_nil {first : Bool} {t r : List Char} (h : ItemsTo first [] t r) :
    Blank t (']' :: r) := by
  cases first with
  | true =>
      cases h with
      | noItems hclose => exact hclose
  | false =>
      cases h with
      | lastItem hclose => exact hclose

theorem ItemsTo.of_cons {first : Bool} {tree : Tree} {items : List Tree} {t r : List Char}
    (h : ItemsTo first (tree :: items) t r) :
    ∃ t₁ t₂, (if first then Blank t t₁ else ∃ u, Blank t (',' :: u) ∧ Blank u t₁) ∧
      Derives (.value tree) t₁ t₂ ∧ ItemsTo false items t₂ r := by
  cases first with
  | true =>
      cases h with
      | list hblank hvalue hlater => exact ⟨_, _, hblank, hvalue, hlater⟩
  | false =>
      cases h with
      | nextItem hcomma hblank hvalue hlater => exact ⟨_, _, ⟨_, hcomma, hblank⟩, hvalue, hlater⟩

theorem nextItem_of_blank {t r : List Char} (h : Blank t (']' :: r)) (first : Bool)
    (place : Place) : ∃ place', nextItem first ⟨t, place⟩ = .ok (false, ⟨']' :: r, place'⟩) := by
  rcases Cursor.skipBlank_of_mark h (by decide) place with ⟨p, hskip⟩
  exact ⟨p, by simp [nextItem, hskip, pure, Except.pure]⟩

theorem nextItem_of_derives {first : Bool} {tree : Tree} {t t₁ t₂ : List Char}
    (hbefore : if first then Blank t t₁ else ∃ u, Blank t (',' :: u) ∧ Blank u t₁)
    (hvalue : Derives (.value tree) t₁ t₂) (place : Place) :
    ∃ place', nextItem first ⟨t, place⟩ = .ok (true, ⟨t₁, place'⟩) := by
  rcases hvalue.exists_startsWith with ⟨c, t₁, rfl, hc⟩
  have hclose : c ≠ ']' := fun heq => hc.not_ends (.inr (.inr (.inl heq)))
  cases first with
  | true =>
      rcases Cursor.skipBlank_of_derives hbefore hvalue place with ⟨p, hskip⟩
      exact ⟨p, by simp [nextItem, hskip, pure, Except.pure]⟩
  | false =>
      rcases hbefore with ⟨u, hcomma, hblank⟩
      rcases Cursor.skipBlank_of_mark hcomma (by decide) place with ⟨p, hskip⟩
      rcases Cursor.skipBlank_of_derives hblank hvalue (p.past ',') with ⟨p', hskip'⟩
      refine ⟨p', ?_⟩
      simp [nextItem, hskip, hskip', hclose, Cursor.advance, pure, Except.pure]

theorem readItems_complete {clauses : List Clause} {items : List Tree} {values : List Value}
    {expected : String} {index : Nat} {t r : List Char} (hlisted : Listed clauses items values)
    (h : ItemsTo (index == 0) items t r) (place : Place) :
    ∃ t' place', readItems expected (clauses.map Clause.field) index ⟨t, place⟩ =
      .ok (values, ⟨t', place'⟩) ∧ Blank t' (']' :: r) := by
  induction hlisted generalizing index t place with
  | nil => exact ⟨t, place, rfl, h.blank_of_nil⟩
  | @item clause clauses tree trees v values hshape _ ih =>
      rcases h.of_cons with ⟨t₁, t₂, hbefore, hvalue, hlater⟩
      have hends : Ends t₂ := Derives.ends_moreItems hlater
      rcases nextItem_of_derives hbefore hvalue place with ⟨p₁, hnext⟩
      rcases clause.complete _ _ _ _ _ p₁ hshape (.nil t₁) hvalue hends with ⟨p₂, hread⟩
      have hlater : ItemsTo (index + 1 == 0) trees t₂ r := hlater
      rcases ih hlater p₂ with ⟨t', place', hrest, hclose⟩
      refine ⟨t', place', ?_, hclose⟩
      simp [readItems, hnext, hread, hrest, bind, Except.bind, pure, Except.pure]
  | @missing clause clauses v values hmissing _ ih =>
      rcases nextItem_of_blank h.blank_of_nil (index == 0) place with ⟨p₁, hnext⟩
      -- The bracket is only looked at, so the later fields meet it again.
      have hlater : ItemsTo (index + 1 == 0) [] (']' :: r) r := itemsTo_nil (.nil _)
      rcases ih hlater p₁ with ⟨t', place', hrest, hclose⟩
      refine ⟨t', place', ?_, hclose⟩
      simp [readItems, hnext, hmissing, hrest, bind, Except.bind, pure, Except.pure]

theorem closeList_of_blank {t r : List Char} (h : Blank t (']' :: r)) (place : Place) :
    ∃ place', closeList ⟨t, place⟩ = .ok ⟨r, place'⟩ := by
  rcases Cursor.skipBlank_of_mark h (by decide) place with ⟨p, hskip⟩
  exact ⟨p.past ']', by simp [closeList, hskip, Cursor.advance, pure, Except.pure]⟩

theorem readList_complete {clauses : List Clause} {items : List Tree} {values : List Value}
    {t r : List Char} (title : String) (hitems : ItemsTo true items t r)
    (h : Listed clauses items values) (place : Place) :
    ∃ place', readList title (clauses.map Clause.field) ⟨t, place⟩ =
      .ok (values, ⟨r, place'⟩) := by
  have hstart : ItemsTo (0 == 0) items t r := hitems
  rcases readItems_complete h hstart place with ⟨t', p, hread, hblank⟩
  rcases closeList_of_blank hblank p with ⟨place', hclose⟩
  refine ⟨place', ?_⟩
  simp only [readList, bind, Except.bind]
  rw [hread]
  simp [hclose, pure, Except.pure]

/-! ## Records -/

theorem complete_readRecord {clauses : List Clause}
    (hnodup : (clauses.map fun clause => clause.field.name).Nodup) (title : String) :
    Complete (readRecord title (clauses.map Clause.field)) (IsRecord clauses) := by
  intro tree values t t' r place hrecord hblank htree _
  rcases Cursor.skipBlank_of_derives hblank htree place with ⟨p, hskip⟩
  rcases hrecord with ⟨members, rfl, hlegible, hnamed⟩ | ⟨items, rfl, hlisted⟩
  · rcases htree.exists_startsWith with ⟨c, inner, rfl, rfl⟩
    rcases readObject_complete hnodup htree hlegible hnamed (p.past '\x7b') with ⟨place', hread⟩
    refine ⟨place', ?_⟩
    simp [readRecord, hskip, Cursor.advance, hread]
  · rcases htree.exists_startsWith with ⟨c, inner, rfl, rfl⟩
    rcases readList_complete title htree hlisted (p.past '[') with ⟨place', hread⟩
    refine ⟨place', ?_⟩
    simp [readRecord, hskip, Cursor.advance, hread]

theorem readWhole_of_spells {α : Type} {read : Reader α} {shape : Tree → α → Prop}
    (hread : Complete read shape) {text : List Char} {tree : Tree} {v : α}
    (htree : Spells text tree) (hshape : shape tree v) : readWhole read text = .ok v := by
  rcases htree with ⟨t, r, hblank, hvalue, hend⟩
  rcases hread tree v text t r .start hshape hblank hvalue (hend.ends ends_nil) with ⟨p, hread⟩
  rcases Cursor.skipBlank_of_blank hend (by simp) p with ⟨p', hskip⟩
  simp [readWhole, Cursor.start, hread, hskip, bind, Except.bind, pure, Except.pure]

/-- A text is read as a record if it is one value, and a record. -/
theorem readWhole_readRecord_iff {clauses : List Clause}
    (hnodup : (clauses.map fun clause => clause.field.name).Nodup) (title : String)
    {text : List Char} {values : List Value} :
    readWhole (readRecord title (clauses.map Clause.field)) text = .ok values ↔
      ∃ tree, Denotes text tree ∧ IsRecord clauses tree values := by
  constructor
  · intro h
    rcases readWhole_spells (sound_readRecord hnodup title) h with ⟨tree, hspells, hrecord⟩
    exact ⟨tree, hspells.denotes, hrecord⟩
  · rintro ⟨tree, hdenotes, hrecord⟩
    exact readWhole_of_spells (complete_readRecord hnodup title) ((hdenotes tree).2 rfl) hrecord

end Json
end VerifierSession
