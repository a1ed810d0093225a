import VerifierSession.Proofs.Shape
import VerifierSession.Proofs.Skimming

/-!
# Records against the grammar

What a reader accepts is a value of the grammar, and what it answers with is in that value.

* `sound_readText`, `sound_readInteger`, `sound_readNullable`: values of one kind;
* `readMembers_sound`, `readItems_sound`: reading members and items one after the other;
* `sound_readRecord`, `readWhole_spells`: a record in either form, and a whole text.
-/

namespace VerifierSession
namespace Json

/-! ## Cursors -/

theorem Cursor.rest_advance {c : Cursor} {ch : Char} {tail : List Char}
    (h : c.rest = ch :: tail) : c.advance.rest = tail := by
  simp [advance, h]

theorem Cursor.rest_of_word {cs : List Char} {c c' : Cursor} (h : c.word cs = .ok c') :
    c.rest = cs ++ c'.rest := by
  induction cs generalizing c with
  | nil =>
      cases h
      rfl
  | cons expected cs ih =>
      simp only [word] at h
      split at h
      · cases h
      · rename_i ch tail hrest
        split_ifs at h with hch
        rw [hrest, hch, List.cons_append, ← ih h, rest_advance hrest]

/-! ## Values of one kind -/

theorem sound_readText : Sound readText (Held Tree.IsText .text) := by
  intro c v c' h
  simp only [readText] at h
  split at h
  · cases h
  · rename_i tail hrest
    rcases exists_of_bind_eq_ok h with ⟨⟨s, behind⟩, hread, hdone⟩
    cases hdone
    rcases readQuotation_spelled hread with ⟨letters, hletters, hchars⟩
    rw [Cursor.rest_advance hrest] at hletters
    exact ⟨c.skipBlank.rest, .text letters, blank_skipBlank c, .text ⟨tail, hrest, hletters⟩,
      s, ⟨letters, rfl, hchars⟩, rfl⟩
  · cases h

theorem sound_readInteger : Sound readInteger (Held Tree.IsInteger .integer) := by
  intro c v c' h
  rcases readInteger_digits h with ⟨t, n, hblank, rfl, hv, hlow, hhigh⟩
  exact ⟨_, .number (digits n), hblank, .number _ (isNumber_digits n), n, ⟨rfl, hlow, hhigh⟩, hv⟩

theorem sound_readNullable {read : Reader Value} {shape : Tree → Value → Prop}
    (hread : Sound read shape) : Sound (readNullable read) (OrNull shape) := by
  intro c v c' h
  simp only [readNullable] at h
  split at h
  · rename_i tail hrest
    rcases exists_of_bind_eq_ok h with ⟨behind, hword, hdone⟩
    cases hdone
    have htail := Cursor.rest_of_word hword
    rw [Cursor.rest_advance hrest] at htail
    refine ⟨c.skipBlank.rest, .null, blank_skipBlank c, ?_, .inl ⟨rfl, rfl⟩⟩
    rw [hrest, htail]
    exact .null _
  · rcases hread _ _ _ h with ⟨t, tree, hblank, htree, hshape⟩
    exact ⟨t, tree, (blank_skipBlank c).trans hblank, htree, .inr hshape⟩

/-! ## Objects -/

/-- Members up to the closing bracket, behind the opening one or behind another member. -/
def MembersTo (first : Bool) (members : List (List Letter × Tree)) (t r : List Char) : Prop :=
  if first then Derives (.value (.object members)) ('\x7b' :: t) r
  else Derives (.moreMembers members) t r

/-- A member whose name stands at a place, with what follows it. -/
theorem MembersTo.cons {first : Bool} {letters : List Letter} {tree : Tree}
    {members : List (List Letter × Tree)} {t t₀ t₁ t₂ t₃ t₄ r : List Char}
    (hbefore : if first then Blank t t₀ else ∃ u, Blank t (',' :: u) ∧ Blank u t₀)
    (hname : Quoted t₀ letters t₁) (hcolon : Blank t₁ (':' :: t₂)) (hblank : Blank t₂ t₃)
    (htree : Derives (.value tree) t₃ t₄) (hlater : MembersTo false members t₄ r) :
    MembersTo first ((letters, tree) :: members) t r := by
  have hmember : Derives (.member (letters, tree)) t₀ t₄ := .member hname hcolon hblank htree
  cases first with
  | true => exact .object hbefore hmember hlater
  | false =>
      rcases hbefore with ⟨u, hcomma, hblank⟩
      exact .nextMember hcomma hblank hmember hlater

/-- Before the closing bracket no member is left, and before a name there is a comma or none. -/
theorem nextName_spelled {first : Bool} {c c' : Cursor} {name : Option String}
    (h : nextName first c = .ok (name, c')) :
    match name with
    | none => ∃ r, c'.rest = '\x7d' :: r ∧ MembersTo first [] c.rest r
    | some name =>
        ∃ letters t₀, charsOf? letters = some name.toList ∧ Quoted t₀ letters c'.rest ∧
          if first then Blank c.rest t₀ else ∃ u, Blank c.rest (',' :: u) ∧ Blank u t₀ := by
  have hname : ∀ (start : Cursor) tail, start.rest = '"' :: tail →
      (readQuotation start.advance >>= fun r =>
        (pure (some r.1, r.2) : Except Fault (Option String × Cursor))) = .ok (name, c') →
      ∃ s letters, name = some s ∧ charsOf? letters = some s.toList ∧
        Quoted start.rest letters c'.rest := by
    intro start tail hstart hread
    rcases exists_of_bind_eq_ok hread with ⟨⟨s, behind⟩, hquotation, hdone⟩
    cases hdone
    rcases readQuotation_spelled hquotation with ⟨letters, hletters, hchars⟩
    rw [Cursor.rest_advance hstart] at hletters
    exact ⟨s, letters, rfl, hchars, tail, hstart, hletters⟩
  have hblank := blank_skipBlank c
  simp only [nextName] at h
  split at h
  · cases h
  · rename_i tail hrest
    cases h
    rw [hrest] at hblank
    refine ⟨tail, hrest, ?_⟩
    cases first with
    | true => exact .noMembers hblank
    | false => exact .lastMember hblank
  · rename_i ch tail hclose hrest
    split_ifs at h with hfirst hquote hcomma
    · subst hquote
      rcases hname _ tail hrest h with ⟨s, letters, rfl, hchars, hquoted⟩
      exact ⟨letters, _, hchars, hquoted, by rw [if_pos hfirst]; exact hblank⟩
    · subst hcomma
      rw [hrest] at hblank
      have hbehind := blank_skipBlank c.skipBlank.advance
      rw [Cursor.rest_advance hrest] at hbehind
      split at h
      · cases h
      · rename_i tail' hrest'
        rcases hname _ tail' hrest' h with ⟨s, letters, rfl, hchars, hquoted⟩
        exact ⟨letters, _, hchars, hquoted, by rw [if_neg hfirst]; exact ⟨tail, hblank, hbehind⟩⟩
      · cases h
      · cases h

theorem readColon_blank {c c' : Cursor} (h : readColon c = .ok c') :
    Blank c.rest (':' :: c'.rest) := by
  have hblank := blank_skipBlank c
  simp only [readColon] at h
  split at h
  · cases h
  · rename_i tail hrest
    cases h
    rw [Cursor.rest_advance hrest, ← hrest]
    exact hblank
  · cases h

section Members

variable {clauses : List Clause} {slots slots' : List (Option Value)}
  {members : List (List Letter × Tree)}

/-- Reading the members finds the grammar's, and fills the slots of the fields that they name. -/
theorem readMembers_sound (hnodup : (clauses.map fun clause => clause.field.name).Nodup)
    {steps : Nat} {first : Bool} {c c' : Cursor} (hlength : slots.length = clauses.length)
    (h : readMembers (clauses.map Clause.field) steps first slots c = .ok (slots', c')) :
    ∃ members r, c'.rest = '\x7d' :: r ∧ MembersTo first members c.rest r ∧ Legible members ∧
      Gathered clauses slots members slots' := by
  induction steps generalizing first slots c with
  | zero => cases h
  | succ steps ih =>
      rw [readMembers] at h
      rcases exists_of_bind_eq_ok h with ⟨⟨name, behind⟩, hnext, hlater⟩
      have hname := nextName_spelled hnext
      cases name with
      | none =>
          cases hlater
          rcases hname with ⟨r, hclose, hmembers⟩
          exact ⟨[], r, hclose, hmembers, legible_nil, gathered_nil clauses _⟩
      | some name =>
          rcases hname with ⟨letters, t₀, hletters, hquoted, hbefore⟩
          cases hfind : findField? (clauses.map Clause.field) name with
          | none =>
              -- Nobody asked for this member, so its value is only passed over.
              simp only [hfind] at hlater
              rcases exists_of_bind_eq_ok hlater with ⟨colon, hcolon, hbehind⟩
              rcases exists_of_bind_eq_ok hbehind with ⟨value, hvalue, hrest⟩
              rcases skimValue_derives hvalue with ⟨t, tree, hblank, htree⟩
              rcases ih hlength hrest with ⟨members, r, hclose, hmembers, hlegible, hgathered⟩
              refine ⟨(letters, tree) :: members, r, hclose,
                .cons hbefore hquoted (readColon_blank hcolon) hblank htree hmembers,
                hlegible.cons hletters, (gathered_unknown hletters fun clause hclause => ?_).2 hgathered⟩
              exact findField?_none hfind clause.field (List.mem_map_of_mem hclause)
          | some found =>
              -- The slot must still be empty, which is why a field is named once at most.
              rcases found with ⟨i, field⟩
              simp only [hfind] at hlater
              split_ifs at hlater with hfilled
              rcases exists_of_bind_eq_ok hlater with ⟨colon, hcolon, hbehind⟩
              rcases exists_of_bind_eq_ok hbehind with ⟨⟨v, value⟩, hvalue, hrest⟩
              rcases findField?_some hfind with ⟨hfield, rfl⟩
              rw [List.getElem?_map, Option.map_eq_some_iff] at hfield
              rcases hfield with ⟨clause, hclause, rfl⟩
              rcases clause.sound _ _ _ hvalue with ⟨t, tree, hblank, htree, hshape⟩
              have hi : i < slots.length := hlength ▸ (List.getElem?_eq_some_iff.1 hclause).1
              rcases ih (by rw [List.length_set, hlength]) hrest with
                ⟨members, r, hclose, hmembers, hlegible, hgathered⟩
              exact ⟨(letters, tree) :: members, r, hclose,
                .cons hbefore hquoted (readColon_blank hcolon) hblank htree hmembers,
                hlegible.cons hletters,
                (gathered_known hnodup hletters hclause hi).2
                  ⟨by simpa using hfilled, v, hshape, hgathered⟩⟩

/-- The slots after all members, with what stands for the fields that none names. -/
theorem named_of_fill {values : List Value} (hlength : slots.length = clauses.length)
    (hgathered : ∀ (i : Nat) (clause : Clause), clauses[i]? = some clause →
      clause.Gathered none (valuesOf clause.field.name members) slots[i]?.join)
    (h : fill (clauses.map Clause.field) slots = .ok values) :
    List.Forall₂ (fun clause v => clause.Named members v) clauses values := by
  induction clauses generalizing slots values with
  | nil =>
      cases h
      exact .nil
  | cons clause clauses ih =>
      rcases slots with _ | ⟨slot, slots⟩
      · cases hlength
      rw [List.map_cons, fill] at h
      split at h
      · cases h
      · rename_i v hv
        rcases exists_of_bind_eq_ok h with ⟨later, hfill, hdone⟩
        cases hdone
        refine .cons ?_ (ih (Nat.succ.inj hlength) (fun i => hgathered (i + 1)) hfill)
        have hfirst : clause.Gathered none (valuesOf clause.field.name members) slot :=
          hgathered 0 clause rfl
        generalize hvalues : valuesOf clause.field.name members = values at hfirst
        cases hfirst with
        | kept => exact .inr ⟨hvalues, hv⟩
        | taken hshape =>
            cases hv
            exact .inl ⟨_, hvalues, hshape⟩

theorem readObject_sound (hnodup : (clauses.map fun clause => clause.field.name).Nodup)
    {c c' : Cursor} {values : List Value}
    (h : readObject (clauses.map Clause.field) c = .ok (values, c')) :
    ∃ members, Derives (.value (.object members)) ('\x7b' :: c.rest) c'.rest ∧ Legible members ∧
      List.Forall₂ (fun clause v => clause.Named members v) clauses values := by
  rcases exists_of_bind_eq_ok h with ⟨⟨slots, behind⟩, hread, hrest⟩
  rcases readMembers_sound hnodup (by simp) hread with
    ⟨members, r, hclose, hmembers, hlegible, hgathered⟩
  cases hfill : fill (clauses.map Clause.field) slots with
  | error name => simp [hfill] at hrest
  | ok filled =>
      simp only [hfill] at hrest
      cases hrest
      have hleave : (leave '\x7d' behind).rest = r := by
        have hplace : behind = ⟨'\x7d' :: r, behind.place⟩ := by rw [← hclose]
        rw [hplace, leave_cons '\x7d' (by decide)]
      rw [hleave]
      refine ⟨members, hmembers, hlegible, named_of_fill ?_ ?_ hfill⟩
      · rw [hgathered.1]
        simp
      · intro i clause hclause
        have hslot := hgathered.2 i clause hclause
        have hempty : ((clauses.map Clause.field).map fun _ => (none : Option Value))[i]?.join =
            none := by
          simp [hclause]
        rwa [hempty] at hslot

end Members

/-! ## Lists -/

/-- Items up to the closing bracket, behind the opening one or behind another item. -/
def ItemsTo (first : Bool) (items : List Tree) (t r : List Char) : Prop :=
  if first then Derives (.value (.list items)) ('[' :: t) r
  else Derives (.moreItems items) t r

/-- An item that stands at a place, with what follows it. -/
theorem ItemsTo.cons {first : Bool} {tree : Tree} {items : List Tree}
    {t t₀ t₁ t₂ r : List Char}
    (hbefore : if first then Blank t t₀ else ∃ u, Blank t (',' :: u) ∧ Blank u t₀)
    (hblank : Blank t₀ t₁) (htree : Derives (.value tree) t₁ t₂)
    (hlater : ItemsTo false items t₂ r) : ItemsTo first (tree :: items) t r := by
  cases first with
  | true => exact .list (hbefore.trans hblank) htree hlater
  | false =>
      rcases hbefore with ⟨u, hcomma, hbehind⟩
      exact .nextItem hcomma (hbehind.trans hblank) htree hlater

theorem itemsTo_nil {first : Bool} {t r : List Char} (h : Blank t (']' :: r)) :
    ItemsTo first [] t r := by
  cases first with
  | true => exact .noItems h
  | false => exact .lastItem h

/-- Before the closing bracket no item is left, and before an item there is a comma or none. -/
theorem nextItem_spelled {first more : Bool} {c c' : Cursor}
    (h : nextItem first c = .ok (more, c')) :
    if more then
      if first then Blank c.rest c'.rest else ∃ u, Blank c.rest (',' :: u) ∧ Blank u c'.rest
    else Blank c.rest c'.rest ∧ ∃ r, c'.rest = ']' :: r := by
  have hblank := blank_skipBlank c
  simp only [nextItem] at h
  split at h
  · cases h
  · rename_i tail hrest
    cases h
    exact ⟨hblank, tail, hrest⟩
  · rename_i ch tail hclose hrest
    split_ifs at h with hfirst hcomma
    · cases h
      rw [if_pos rfl, if_pos hfirst]
      exact hblank
    · subst hcomma
      rw [hrest] at hblank
      have hbehind := blank_skipBlank c.skipBlank.advance
      rw [Cursor.rest_advance hrest] at hbehind
      split at h
      · cases h
      · cases h
      · cases h
        rw [if_pos rfl, if_neg hfirst]
        exact ⟨tail, hblank, hbehind⟩

theorem closeList_blank {c c' : Cursor} (h : closeList c = .ok c') :
    Blank c.rest (']' :: c'.rest) := by
  have hblank := blank_skipBlank c
  simp only [closeList] at h
  split at h
  · cases h
  · rename_i tail hrest
    cases h
    rw [Cursor.rest_advance hrest, ← hrest]
    exact hblank
  · split at h <;> cases h
  · cases h

theorem items_eq_nil {items : List Tree} {t r : List Char}
    (h : Derives (.moreItems items) (']' :: t) r) : items = [] := by
  cases h with
  | lastItem => rfl
  | nextItem hcomma =>
      have hchar := hcomma.eq_of_not_blank (by decide)
      cases hchar

/-- Items are read in turn, and behind them the list closes. -/
theorem readItems_sound {clauses : List Clause} {expected : String} {index : Nat} {c c' : Cursor}
    {values : List Value} {r : List Char}
    (h : readItems expected (clauses.map Clause.field) index c = .ok (values, c'))
    (hclose : Blank c'.rest (']' :: r)) :
    ∃ items, ItemsTo (index == 0) items c.rest r ∧ Listed clauses items values := by
  induction clauses generalizing index c values with
  | nil =>
      cases h
      exact ⟨[], itemsTo_nil hclose, .nil⟩
  | cons clause clauses ih =>
      rw [List.map_cons, readItems] at h
      rcases exists_of_bind_eq_ok h with ⟨⟨more, next⟩, hnext, hread⟩
      have hbefore := nextItem_spelled hnext
      have hlater : ∀ v behind,
          (readItems expected (clauses.map Clause.field) (index + 1) behind >>= fun r =>
            (pure (v :: r.1, r.2) : Except Fault (List Value × Cursor))) = .ok (values, c') →
          ∃ later items, values = v :: later ∧ ItemsTo false items behind.rest r ∧
            Listed clauses items later := by
        intro v behind hrest
        rcases exists_of_bind_eq_ok hrest with ⟨⟨later, last⟩, hitems, hdone⟩
        cases hdone
        rcases ih hitems with ⟨items, hitems, hlisted⟩
        exact ⟨later, items, rfl, hitems, hlisted⟩
      cases more with
      | true =>
          simp only [if_true] at hread
          rcases exists_of_bind_eq_ok hread with ⟨⟨v, behind⟩, hvalue, hrest⟩
          rcases hlater v behind hrest with ⟨later, items, rfl, hitems, hlisted⟩
          rcases clause.sound _ _ _ hvalue with ⟨t, tree, hblank, htree, hshape⟩
          exact ⟨tree :: items, .cons hbefore hblank htree hitems, .item hshape hlisted⟩
      | false =>
          rcases hbefore with ⟨hblank, tail, htail⟩
          cases hmissing : clause.field.unlisted with
          | none =>
              simp only [hmissing] at hread
              cases hread
          | some v =>
              simp only [hmissing] at hread
              rcases hlater v next hread with ⟨later, items, rfl, hitems, hlisted⟩
              -- The list ends here, so no item is left for the later fields.
              rw [htail] at hitems hblank
              cases items_eq_nil hitems
              cases hitems with
              | lastItem hend =>
                  cases hend.eq_of_not_blank (by decide)
                  exact ⟨[], itemsTo_nil hblank, .missing hmissing hlisted⟩

theorem readList_sound {clauses : List Clause} {title : String} {c c' : Cursor}
    {values : List Value} (h : readList title (clauses.map Clause.field) c = .ok (values, c')) :
    ∃ items, Derives (.value (.list items)) ('[' :: c.rest) c'.rest ∧
      Listed clauses items values := by
  rcases exists_of_bind_eq_ok h with ⟨⟨read, behind⟩, hitems, hrest⟩
  rcases exists_of_bind_eq_ok hrest with ⟨last, hclose, hdone⟩
  cases hdone
  exact readItems_sound hitems (closeList_blank hclose)

/-! ## Records -/

theorem sound_readRecord {clauses : List Clause}
    (hnodup : (clauses.map fun clause => clause.field.name).Nodup) (title : String) :
    Sound (readRecord title (clauses.map Clause.field)) (IsRecord clauses) := by
  intro c values c' h
  simp only [readRecord] at h
  split at h
  · cases h
  · rename_i tail hrest
    rcases readList_sound h with ⟨items, hitems, hlisted⟩
    rw [Cursor.rest_advance hrest, ← hrest] at hitems
    exact ⟨_, .list items, blank_skipBlank c, hitems, .inr ⟨items, rfl, hlisted⟩⟩
  · rename_i tail hrest
    rcases readObject_sound hnodup h with ⟨members, hmembers, hlegible, hnamed⟩
    rw [Cursor.rest_advance hrest, ← hrest] at hmembers
    exact ⟨_, .object members, blank_skipBlank c, hmembers,
      .inl ⟨members, rfl, hlegible, hnamed⟩⟩
  · cases h

/-- A whole text that is accepted is one value. -/
theorem readWhole_spells {α : Type} {read : Reader α} {shape : Tree → α → Prop}
    (hread : Sound read shape) {text : List Char} {v : α} (h : readWhole read text = .ok v) :
    ∃ tree, Spells text tree ∧ shape tree v := by
  rcases exists_of_bind_eq_ok h with ⟨⟨value, c⟩, hvalue, hrest⟩
  rcases hread _ _ _ hvalue with ⟨t, tree, hblank, htree, hshape⟩
  cases hend : c.skipBlank.rest.isEmpty with
  | false => simp [hend] at hrest
  | true =>
      simp only [hend, if_true] at hrest
      cases hrest
      have hbehind := blank_skipBlank c
      rw [List.isEmpty_iff.1 hend] at hbehind
      exact ⟨tree, ⟨t, c.rest, hblank, htree, hbehind⟩, hshape⟩

end Json
end VerifierSession
