import VerifierSession.Toml.Reading

/-!
# Tables, one key at a time

Whatever a statement does to a table, it does at one key of it, and in a table below that at one key
again.  So a field that nothing else speaks of can be added anywhere below the header of its table,
and the rest of the document goes on as if it were not there.

* `Members.AtKey`: a change of a table that depends on one key and alters that key only;
* `Members.Gradual`: changes of that kind one after the other; they take no key away, and they do
  not notice a member at another key (`Gradual.keeps`, `Gradual.frame`);
* `Members.Grown`: a root table, and what it is without one field of one of its tables;
* `build_field`: a field that is added to the statements of a document.
-/

namespace VerifierSession
namespace Toml
namespace Members

variable {members : Members} {key name : String} {node node' : Node}

/-! ## Members -/

@[simp] theorem find?_set_self (members : Members) (key : String) (node : Node) :
    (members.set key node).find? key = some node := by
  induction members with
  | nil => simp [set, find?]
  | cons m members ih =>
      obtain ⟨k, old⟩ := m
      by_cases hk : k = key
      · simp [set, find?, hk]
      · simp [set, find?, hk, ih]

theorem find?_set_ne (h : name ≠ key) : (members.set key node).find? name = members.find? name := by
  induction members with
  | nil => simp [set, find?, h.symm]
  | cons m members ih =>
      obtain ⟨k, old⟩ := m
      by_cases hk : k = key
      · simp [set, find?, hk, h.symm]
      · by_cases hname : k = name
        · simp [set, find?, hname, h]
        · simp [set, find?, hk, hname, ih]

theorem set_of_find?_eq_none (h : members.find? key = none) :
    members.set key node = members ++ [(key, node)] := by
  induction members with
  | nil => rfl
  | cons m members ih =>
      obtain ⟨k, old⟩ := m
      by_cases hk : k = key
      · simp [find?, hk] at h
      · simp only [find?, hk, if_false] at h
        simp [set, hk, ih h]

@[simp] theorem set_set (members : Members) (key : String) (node node' : Node) :
    (members.set key node).set key node' = members.set key node' := by
  induction members with
  | nil => simp [set]
  | cons m members ih =>
      obtain ⟨k, old⟩ := m
      by_cases hk : k = key
      · simp [set, hk]
      · simp [set, hk, ih]

/-- Two keys are set in any order, if one of them keeps its place. -/
theorem set_comm (h : name ≠ key) (hname : (members.find? name).isSome = true) :
    (members.set name node).set key node' = (members.set key node').set name node := by
  induction members with
  | nil => cases hname
  | cons m members ih =>
      obtain ⟨k, old⟩ := m
      by_cases hk : k = name
      · simp [set, hk, h]
      · simp only [find?, hk, if_false] at hname
        by_cases hkey : k = key
        · simp [set, hkey, h.symm]
        · simp [set, hk, hkey, ih hname]

def hide (name : String) (members : Members) : Members :=
  members.filter fun m => m.1 ≠ name

theorem find?_hide_ne (h : key ≠ name) : (members.hide name).find? key = members.find? key := by
  induction members with
  | nil => rfl
  | cons m members ih =>
      obtain ⟨k, old⟩ := m
      by_cases hk : k = name
      · simpa [hide, hk, find?, h.symm] using ih
      · by_cases hkey : k = key
        · simp [hide, hkey, h, find?]
        · simpa [hide, hk, hkey, find?] using ih

theorem hide_set_ne (h : key ≠ name) :
    (members.set key node).hide name = (members.hide name).set key node := by
  induction members with
  | nil => simp [set, hide, h]
  | cons m members ih =>
      obtain ⟨k, old⟩ := m
      by_cases hk : k = key
      · simp [set, hide, hk, h]
      · by_cases hname : k = name
        · simpa [set, hide, hk, hname, h.symm] using ih
        · simpa [set, hide, hk, hname] using ih

theorem hide_set_self (members : Members) (name : String) (node : Node) :
    (members.set name node).hide name = members.hide name := by
  induction members with
  | nil => simp [set, hide]
  | cons m members ih =>
      obtain ⟨k, old⟩ := m
      by_cases hk : k = name
      · simp [set, hide, hk]
      · simpa [set, hide, hk] using ih

theorem hide_of_find?_eq_none (h : members.find? name = none) : members.hide name = members := by
  induction members with
  | nil => rfl
  | cons m members ih =>
      obtain ⟨k, old⟩ := m
      by_cases hk : k = name
      · simp [find?, hk] at h
      · simp only [find?, hk, if_false] at h
        simpa [hide, hk] using ih h

/-! ## One key -/

/-- A change of a table depends on the value at one key, and gives that key a new value. -/
def AtKey (key : String) (g : Option Node → Option Node) (op : Members → Option Members) : Prop :=
  ∀ members, op members = (g (find? members key)).map (members.set key)

/-- Changes at one key each, one after the other. -/
inductive Gradual : (Members → Option Members) → Prop where
  | done : Gradual some
  | step {key : String} {g : Option Node → Option Node} {op later : Members → Option Members} :
      AtKey key g op → Gradual later → Gradual fun members => (op members).bind later

theorem AtKey.gradual {g : Option Node → Option Node} {op : Members → Option Members}
    (h : AtKey key g op) : Gradual op := by
  have hsame : (fun members => (op members).bind some) = op := by
    funext members
    exact Option.bind_fun_some _
  exact hsame ▸ Gradual.step h .done

theorem gradual_none : Gradual fun _ => none := by
  have hat : AtKey "" (fun _ => none) fun _ => none := fun _ => rfl
  exact hat.gradual

namespace Gradual

variable {op later : Members → Option Members} {full skel : Members}

theorem trans (h : Gradual op) (hlater : Gradual later) :
    Gradual fun members => (op members).bind later := by
  induction h with
  | done => exact hlater
  | step hat _ ih =>
      have hassoc := Gradual.step hat ih
      simpa only [Option.bind_assoc] using hassoc

theorem keeps (h : Gradual op) {members members' : Members} (hop : op members = some members')
    (hkey : members'.find? key = none) : members.find? key = none := by
  induction h generalizing members with
  | done =>
      cases hop
      exact hkey
  | @step k g op later hat _ ih =>
      obtain ⟨mid, hmid, hlater⟩ := Option.bind_eq_some_iff.1 hop
      have hnone := ih hlater
      rw [hat] at hmid
      obtain ⟨node, -, rfl⟩ := Option.map_eq_some_iff.1 hmid
      by_cases hk : key = k
      · simp [hk] at hnone
      · rwa [find?_set_ne hk] at hnone

/-- A member at a key that is not spoken of makes no difference, and is kept. -/
theorem frame (h : Gradual op) (hop : op (full.hide name) = some skel)
    (hname : skel.find? name = none) :
    ∃ full', op full = some full' ∧ full'.hide name = skel ∧
      full'.find? name = full.find? name := by
  induction h generalizing full with
  | done =>
      cases hop
      exact ⟨full, rfl, rfl, rfl⟩
  | @step k g op later hat hgradual ih =>
      obtain ⟨mid, hmid, hlater⟩ := Option.bind_eq_some_iff.1 hop
      rw [hat] at hmid
      obtain ⟨node, hnode, rfl⟩ := Option.map_eq_some_iff.1 hmid
      -- If the change were at this key, it would still be there at the end.
      have hk : k ≠ name := by
        rintro rfl
        have hnone := hgradual.keeps hlater hname
        simp at hnone
      rw [find?_hide_ne hk] at hnode
      rw [← hide_set_ne hk] at hlater
      obtain ⟨full', hfull, hhide, hfind⟩ := ih hlater
      refine ⟨full', ?_, hhide, hfind.trans (find?_set_ne hk.symm)⟩
      simp only [hat full, hnode, Option.map_some, Option.bind_some]
      exact hfull

end Gradual

/-! ## Changes along a path -/

section Change

variable {f : Origin → Members → Option Members} (viaDots : Bool) (path : List String)

/-- What becomes of a value from which the rest of a path is followed. -/
def descend (f : Origin → Members → Option Members) : Option Node → Option Node
  | none =>
      let origin := if viaDots then .dotted else .passed
      (change viaDots origin [] path f).map (.table origin)
  | some (.table origin below) =>
      if origin = .braces ∨ (viaDots = true ∧ origin = .header) then none
      else (change viaDots origin below path f).map (.table origin)
  | some (.tables elements) =>
      match elements.getLast? with
      | some (.table origin below) =>
          (change viaDots origin below path f).map fun below =>
            .tables (elements.dropLast ++ [.table origin below])
      | _ => none
  | some _ => none

/-- A change along a path is one at the first key of the path. -/
theorem change_cons (origin : Origin) (key : String) :
    AtKey key (descend viaDots path f) fun members =>
      change viaDots origin members (key :: path) f := by
  intro members
  change Members.change viaDots origin members (key :: path) f = _
  unfold Members.change
  cases members.find? key with
  | none => simp [descend, Option.map_eq_bind, Option.bind_assoc]
  | some found =>
      cases found with
      | table origin' below =>
          simp only [descend]
          split
          · rfl
          · simp [Option.map_eq_bind, Option.bind_assoc]
      | tables elements =>
          simp only [descend]
          cases elements.getLast? with
          | none => rfl
          | some last =>
              cases last with
              | table origin' below =>
                  simp [Option.map_eq_bind, Option.bind_assoc]
              | _ => rfl
      | _ => rfl

/-- A change of a table along a path is gradual if it ends in one at a key. -/
theorem gradual_change (hf : ∀ origin, ∃ key g, AtKey key g (f origin)) (origin : Origin) :
    Gradual fun members => change viaDots origin members path f := by
  cases path with
  | nil =>
      obtain ⟨key, g, hat⟩ := hf origin
      exact hat.gradual
  | cons key path => exact (change_cons viaDots path origin key).gradual

end Change

/-! ## Keys -/

/-- What setting a key makes of the value that it has. -/
def fill (node : Node) : Option Node → Option Node
  | none => some node
  | some _ => none

theorem atKey_fill (path : List String) (key : String) (node : Node) (origin : Origin) :
    AtKey key
      (fun found => if decide (origin = .dotted) == path.isEmpty then none else fill node found)
      fun members =>
        if decide (origin = .dotted) == path.isEmpty then none
        else if (find? members key).isSome then none
        else some (members ++ [(key, node)]) := by
  intro members
  dsimp only
  split
  · rfl
  · cases hfind : find? members key with
    | none => simp [fill, set_of_find?_eq_none hfind]
    | some found => rfl

theorem insert_nil (key : String) (node : Node) :
    AtKey key (fill node) fun members => insert members [] key node :=
  atKey_fill [] key node .header

theorem gradual_insert (p : Pair) : Gradual fun members => insert members p.1 p.2.1 p.2.2 :=
  gradual_change true p.1 (fun origin => ⟨_, _, atKey_fill p.1 p.2.1 p.2.2 origin⟩) .header

theorem gradual_insertAll (pairs : List Pair) : Gradual fun members => insertAll members pairs := by
  induction pairs with
  | nil => exact .done
  | cons p pairs ih =>
      have hcons : (fun members => insertAll members (p :: pairs)) =
          fun members => (insert members p.1 p.2.1 p.2.2).bind fun members =>
            insertAll members pairs := by
        funext members
        exact List.foldlM_cons
      rw [hcons]
      exact (gradual_insert p).trans ih

/-! ## Headers -/

/-- What opening a table makes of the value at its key. -/
def opened (pairs : List Pair) : Option Node → Option Node
  | none => (insertAll [] pairs).map (.table .header)
  | some (.table .passed below) => (insertAll below pairs).map (.table .header)
  | some _ => none

/-- What a further element makes of the list of tables at its key. -/
def extended (pairs : List Pair) (found : Option Node) : Option Node :=
  (insertAll [] pairs).bind fun below =>
    match found with
    | none => some (.tables [.table .header below])
    | some (.tables elements) => some (.tables (elements ++ [.table .header below]))
    | some _ => none

theorem openTable_nil (key : String) (pairs : List Pair) :
    AtKey key (opened pairs) fun members => openTable members [] key pairs := by
  intro members
  simp only [openTable, change]
  cases hfind : find? members key with
  | none => cases h : insertAll [] pairs <;> simp [opened, h, set_of_find?_eq_none hfind]
  | some found =>
      cases found with
      | table origin below =>
          cases origin with
          | passed => cases h : insertAll below pairs <;> simp [opened, h]
          | _ => rfl
      | _ => rfl

theorem addElement_nil (key : String) (pairs : List Pair) :
    AtKey key (extended pairs) fun members => addElement members [] key pairs := by
  intro members
  simp only [addElement, change, extended]
  cases insertAll [] pairs with
  | none => rfl
  | some below =>
      cases hfind : find? members key with
      | none => simp [set_of_find?_eq_none hfind]
      | some found => cases found <;> rfl

/-- Where a change finds a table, it leaves a table, and changes its members gradually. -/
def KeepsTables (g : Option Node → Option Node) : Prop :=
  ∀ origin, ∃ origin' op, Gradual op ∧
    ∀ below, g (some (.table origin below)) = (op below).map (.table origin')

theorem keepsTables_opened (pairs : List Pair) : KeepsTables (opened pairs) := by
  intro origin
  cases origin with
  | passed => exact ⟨.header, _, gradual_insertAll pairs, fun _ => rfl⟩
  | _ => exact ⟨.header, _, gradual_none, fun _ => rfl⟩

theorem keepsTables_extended (pairs : List Pair) : KeepsTables (extended pairs) := by
  intro origin
  refine ⟨.header, _, gradual_none, ?_⟩
  intro below
  simp only [extended]
  cases insertAll [] pairs <;> rfl

theorem keepsTables_descend (viaDots : Bool) (path : List String)
    {f : Origin → Members → Option Members}
    (hf : ∀ origin, ∃ key g, AtKey key g (f origin)) : KeepsTables (descend viaDots path f) := by
  intro origin
  by_cases hclosed : origin = .braces ∨ (viaDots = true ∧ origin = .header)
  · exact ⟨.header, _, gradual_none, fun below => by simp only [descend, if_pos hclosed]; rfl⟩
  · exact ⟨origin, _, gradual_change viaDots path hf origin,
      fun below => by simp only [descend, if_neg hclosed]⟩

/-- What a section does to the root table, it does at one key, and a table there stays one. -/
theorem atKey_addTo (s : Section) :
    ∃ key g, AtKey key g (fun members => s.addTo members) ∧ KeepsTables g := by
  obtain ⟨⟨path, last⟩, isElement, pairs⟩ := s
  cases isElement with
  | true =>
      have hleaf := addElement_nil last pairs
      cases path with
      | nil => exact ⟨last, _, hleaf, keepsTables_extended pairs⟩
      | cons key path =>
          exact ⟨key, _, change_cons false path .header key,
            keepsTables_descend false path fun _ => ⟨last, _, hleaf⟩⟩
  | false =>
      have hleaf := openTable_nil last pairs
      cases path with
      | nil => exact ⟨last, _, hleaf, keepsTables_opened pairs⟩
      | cons key path =>
          exact ⟨key, _, change_cons false path .header key,
            keepsTables_descend false path fun _ => ⟨last, _, hleaf⟩⟩

/-! ## One more field -/

/-- A table of a root table, if it is one, has no value at a key. -/
def Lacks (members : Members) (t name : String) : Prop :=
  ∀ origin below, members.find? t = some (.table origin below) → find? below name = none

/-- A root table, and what it is without one field of one of its tables. -/
def Grown (t name : String) (node : Node) (full skel : Members) : Prop :=
  ∃ origin below, full.find? t = some (.table origin below) ∧ find? below name = some node ∧
    skel = full.set t (.table origin (hide name below))

section Root

variable {t : String} {full skel skel' : Members} {op : Members → Option Members}
  {g : Option Node → Option Node}

/-- A table stays one, and no key of it is taken away. -/
theorem kept_of_step (hop : AtKey key g op) (hg : KeepsTables g) (hstep : op skel = some skel')
    {origin : Origin} {below : Members} (htable : skel.find? t = some (.table origin below)) :
    ∃ origin' below', skel'.find? t = some (.table origin' below') ∧
      ∀ name, find? below' name = none → find? below name = none := by
  rw [hop] at hstep
  obtain ⟨node, hnode, rfl⟩ := Option.map_eq_some_iff.1 hstep
  by_cases hkey : t = key
  · subst hkey
    obtain ⟨origin', op', hgradual, heq⟩ := hg origin
    rw [htable, heq] at hnode
    obtain ⟨below', hbelow', rfl⟩ := Option.map_eq_some_iff.1 hnode
    exact ⟨origin', below', find?_set_self _ _ _, fun name => hgradual.keeps hbelow'⟩
  · rw [find?_set_ne hkey]
    exact ⟨origin, below, htable, fun _ h => h⟩

/-- What is done to a table without a field is done with the field in the same way. -/
theorem Grown.step (h : Grown t name node full skel) (hop : AtKey key g op) (hg : KeepsTables g)
    (hstep : op skel = some skel') (hlacks : skel'.Lacks t name) :
    ∃ full', op full = some full' ∧ Grown t name node full' skel' := by
  obtain ⟨origin, below, htable, hfield, rfl⟩ := h
  rw [hop] at hstep
  obtain ⟨v, hv, rfl⟩ := Option.map_eq_some_iff.1 hstep
  by_cases hkey : t = key
  · -- The change is at the table, and so at other keys than the field.
    subst hkey
    obtain ⟨origin', op', hgradual, heq⟩ := hg origin
    rw [find?_set_self, heq] at hv
    obtain ⟨below', hbelow', rfl⟩ := Option.map_eq_some_iff.1 hv
    obtain ⟨grown, hgrown, hhide, hfind⟩ :=
      hgradual.frame hbelow' (hlacks origin' below' (find?_set_self _ _ _))
    refine ⟨full.set t (.table origin' grown), ?_, origin', grown, find?_set_self _ _ _,
      hfind.trans hfield, ?_⟩
    · rw [hop, htable, heq, hgrown]
      rfl
    · rw [set_set, set_set, hhide]
  · -- The change is elsewhere, and the table keeps its place.
    rw [find?_set_ne (Ne.symm hkey)] at hv
    refine ⟨full.set key v, ?_, origin, below, ?_, hfield, ?_⟩
    · rw [hop, hv]
      rfl
    · rw [find?_set_ne hkey]
      exact htable
    · exact set_comm hkey (by rw [htable]; rfl)

end Root

/-! ## One more field in a document -/

section Sections

variable {t : String} {full skel skel' : Members} {sections : List Section}

theorem kept_of_addSections (hstep : sections.foldlM Section.addTo skel = some skel')
    {origin : Origin} {below : Members} (htable : skel.find? t = some (.table origin below)) :
    ∃ origin' below', skel'.find? t = some (.table origin' below') ∧
      ∀ name, find? below' name = none → find? below name = none := by
  induction sections generalizing skel origin below with
  | nil =>
      cases hstep
      exact ⟨origin, below, htable, fun _ h => h⟩
  | cons s sections ih =>
      rw [List.foldlM_cons] at hstep
      obtain ⟨mid, hmid, hrest⟩ := Option.bind_eq_some_iff.1 hstep
      obtain ⟨key, g, hat, hkeeps⟩ := atKey_addTo s
      obtain ⟨_, mid', hstays, hfirst⟩ := kept_of_step hat hkeeps hmid htable
      obtain ⟨origin', below', hfinal, hlater⟩ := ih hrest hstays
      exact ⟨origin', below', hfinal, fun name h => hfirst name (hlater name h)⟩

/-- What a table lacks in the end, it lacked before. -/
theorem lacks_of_addSections (hstep : sections.foldlM Section.addTo skel = some skel')
    (hlacks : skel'.Lacks t name) : skel.Lacks t name := by
  intro origin below htable
  obtain ⟨origin', below', hfinal, hkeys⟩ := kept_of_addSections hstep htable
  exact hkeys name (hlacks origin' below' hfinal)

/-- What follows is done with the field in the same way as without it. -/
theorem Grown.addSections (h : Grown t name node full skel)
    (hstep : sections.foldlM Section.addTo skel = some skel') (hlacks : skel'.Lacks t name) :
    ∃ full', sections.foldlM Section.addTo full = some full' ∧ Grown t name node full' skel' := by
  induction sections generalizing full skel with
  | nil =>
      cases hstep
      exact ⟨full, rfl, h⟩
  | cons s sections ih =>
      rw [List.foldlM_cons] at hstep
      obtain ⟨mid, hmid, hrest⟩ := Option.bind_eq_some_iff.1 hstep
      obtain ⟨key, g, hat, hkeeps⟩ := atKey_addTo s
      obtain ⟨full₁, hfull₁, hgrown⟩ :=
        h.step hat hkeeps hmid (lacks_of_addSections hrest hlacks)
      obtain ⟨full', hfull', hfinal⟩ := ih hgrown hrest
      refine ⟨full', ?_, hfinal⟩
      rw [List.foldlM_cons]
      exact Option.bind_eq_some_iff.2 ⟨full₁, hfull₁, hfull'⟩

end Sections

/-- A field among the pairs below a header, where none of the others is at its key. -/
theorem insertAll_field (node : Node) {below skel : Members} {pairs later : List Pair}
    (h : insertAll below (pairs ++ later) = some skel) (hname : skel.find? name = none) :
    ∃ full, insertAll below (pairs ++ ([], name, node) :: later) = some full ∧
      full.hide name = skel ∧ full.find? name = some node := by
  simp only [insertAll, List.foldlM_append] at h ⊢
  obtain ⟨mid, hmid, hlater⟩ := Option.bind_eq_some_iff.1 h
  have hnone : mid.find? name = none := (gradual_insertAll later).keeps hlater hname
  have hfield : insert mid [] name node = some (mid.set name node) := by
    have hinsert := insert_nil name node mid
    rw [hnone] at hinsert
    exact hinsert
  have hhidden : insertAll ((mid.set name node).hide name) later = some skel := by
    rw [hide_set_self, hide_of_find?_eq_none hnone]
    exact hlater
  obtain ⟨full, hfull, hskel, hfind⟩ := (gradual_insertAll later).frame hhidden hname
  refine ⟨full, ?_, hskel, hfind.trans (find?_set_self _ _ _)⟩
  refine Option.bind_eq_some_iff.2 ⟨mid, hmid, ?_⟩
  rw [List.foldlM_cons]
  exact Option.bind_eq_some_iff.2 ⟨mid.set name node, hfield, hfull⟩

/-- What a header opens is a table for the pairs below it, whatever they are. -/
theorem opened_cases (found : Option Node) :
    (∃ below, ∀ pairs, opened pairs found = (insertAll below pairs).map (.table .header)) ∨
      ∀ pairs, opened pairs found = none := by
  cases found with
  | none => exact .inl ⟨[], fun _ => rfl⟩
  | some node =>
      cases node with
      | table origin below =>
          cases origin with
          | passed => exact .inl ⟨below, fun _ => rfl⟩
          | _ => exact .inr fun _ => rfl
      | _ => exact .inr fun _ => rfl

end Members

/-! ## Statements -/

theorem Section.all_append_table (before : List Statement) (key : DottedKey)
    (rest : List Statement) :
    Section.all (before ++ .table key :: rest) =
      ((Section.all before).1,
        (Section.all before).2 ++ ⟨key, false, (Section.all rest).1⟩ :: (Section.all rest).2) := by
  induction before with
  | nil => rfl
  | cons s before ih => cases s <;> simp [Section.all, ih]

theorem Section.all_pairs (pairs : List Pair) (rest : List Statement) :
    Section.all (pairs.map .pair ++ rest) =
      (pairs ++ (Section.all rest).1, (Section.all rest).2) := by
  induction pairs with
  | nil => rfl
  | cons p pairs ih => simp [Section.all, ih]

/--
A field that is added somewhere below the header of its table: if the document has no such field, it
is a document with the field too, and nothing else about it changes.
-/
theorem build_field {before rest : List Statement} {t name : String} {node : Node}
    {pairs : List Pair} {root : Members}
    (h : build (before ++ .table ⟨[], t⟩ :: (pairs.map .pair ++ rest)) = some root)
    (hlacks : root.Lacks t name) :
    ∃ root', build (before ++ .table ⟨[], t⟩ ::
        (pairs.map .pair ++ .pair ([], name, node) :: rest)) = some root' ∧
      root'.Grown t name node root := by
  simp only [build, Section.all_append_table, Section.all_pairs] at h ⊢
  obtain ⟨root₀, hroot₀, hsections⟩ := Option.bind_eq_some_iff.1 h
  rw [List.foldlM_append] at hsections
  obtain ⟨root₁, hroot₁, hlater⟩ := Option.bind_eq_some_iff.1 hsections
  rw [List.foldlM_cons] at hlater
  obtain ⟨root₂, hopen, hrest⟩ := Option.bind_eq_some_iff.1 hlater
  have hlacks₂ : root₂.Lacks t name := Members.lacks_of_addSections hrest hlacks
  -- The header makes a table of the pairs below it, and there the field is added.
  have hheader : ∀ pairs, Section.addTo root₁ ⟨⟨[], t⟩, false, pairs⟩ =
      (Members.opened pairs (root₁.find? t)).map (root₁.set t) :=
    fun pairs => Members.openTable_nil t pairs root₁
  rw [hheader] at hopen
  obtain ⟨opened, hopened, rfl⟩ := Option.map_eq_some_iff.1 hopen
  rcases Members.opened_cases (root₁.find? t) with ⟨below, hbelow⟩ | hnone
  · rw [hbelow] at hopened
    obtain ⟨members, hmembers, rfl⟩ := Option.map_eq_some_iff.1 hopened
    obtain ⟨grown, hgrown, hhide, hfind⟩ := Members.insertAll_field node hmembers
      (hlacks₂ .header members (Members.find?_set_self _ _ _))
    have hfield : Members.Grown t name node (root₁.set t (.table .header grown))
        (root₁.set t (.table .header members)) :=
      ⟨.header, grown, Members.find?_set_self _ _ _, hfind, by rw [Members.set_set, hhide]⟩
    obtain ⟨root', hroot', hfinal⟩ := hfield.addSections hrest hlacks
    refine ⟨root', ?_, hfinal⟩
    refine Option.bind_eq_some_iff.2 ⟨root₀, hroot₀, ?_⟩
    rw [List.foldlM_append]
    refine Option.bind_eq_some_iff.2 ⟨root₁, hroot₁, ?_⟩
    rw [List.foldlM_cons]
    refine Option.bind_eq_some_iff.2 ⟨root₁.set t (.table .header grown), ?_, hroot'⟩
    rw [hheader, hbelow]
    simp only [Section.all, hgrown, Option.map_some]
  · rw [hnone] at hopened
    cases hopened

end Toml
end VerifierSession
