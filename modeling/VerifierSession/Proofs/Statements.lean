import VerifierSession.Proofs.Continuation

/-!
# The statements of a text

Whatever is read from a text is read in the same way if further lines follow it.  So a document that
is put together from texts of whole statements has the statements of these texts.

* `GoesOn`: a reader that reads the same if further lines follow;
* `readsOn`: values and pairs, which are read in steps, are read by such readers;
* `Reads`: the statements of a text, with `Reads.append` for one text after the other.
-/

namespace VerifierSession
namespace Toml

/-! ## Values -/

/-- A reader that reads the same if further lines follow, whatever they are. -/
def GoesOn {α : Type} (read read' : List Char → Option (α × List Char)) : Prop :=
  ∀ cs a rest, read cs = some (a, rest) →
    ∀ more, read' (cs ++ '\n' :: more) = some (a, rest ++ '\n' :: more)

/-- What is read does not begin with a carriage return. -/
def Begins {α : Type} (read : List Char → Option (α × List Char)) : Prop :=
  read [] = none ∧ ∀ cs, read ('\r' :: cs) = none

/--
One step of reading what stands between brackets, with commas: the end, or an item and what follows
it.
-/
def sequence {α : Type} (close : Char) (item : List Char → Option (α × List Char))
    (later : List Char → Option (List α × List Char)) (cs : List Char) :
    Option (List α × List Char) :=
  match skipFiller false cs with
  | [] => none
  | c :: rest =>
      if c = close then some ([], rest)
      else
        (item (c :: rest)).bind fun first =>
          match skipFiller false first.2 with
          | [] => none
          | c :: rest =>
              if c = close then some ([first.1], rest)
              else if c = ',' then (later rest).map fun items => (first.1 :: items.1, items.2)
              else none

theorem sequence_goesOn {α : Type} {close : Char} (hclose : close ≠ '\r')
    {item item' : List Char → Option (α × List Char)}
    {later later' : List Char → Option (List α × List Char)} (hitem : GoesOn item item')
    (hbegins : Begins item) (hlater : GoesOn later later') :
    GoesOn (sequence close item later) (sequence close item' later') := by
  intro cs items rest h more
  unfold sequence at h ⊢
  cases hskip : skipFiller false cs with
  | nil =>
      rw [hskip] at h
      cases h
  | cons c tail =>
      simp only [hskip] at h
      by_cases hc : c = close
      · rw [if_pos hc] at h
        cases h
        rw [skipFiller_more more hskip (hc ▸ hclose)]
        simp [hc]
      · rw [if_neg hc] at h
        obtain ⟨⟨first, behind⟩, hfirst, hrest⟩ := Option.bind_eq_some_iff.1 h
        have hreturn : c ≠ '\r' := by
          rintro rfl
          rw [hbegins.2] at hfirst
          cases hfirst
        rw [skipFiller_more more hskip hreturn]
        have hmore := hitem _ _ _ hfirst more
        rw [List.cons_append] at hmore
        simp only [hc, if_false, hmore, Option.bind_some]
        dsimp only at hrest
        -- Behind the item there is the end, or a comma and further items.
        cases hbehind : skipFiller false behind with
        | nil =>
            rw [hbehind] at hrest
            cases hrest
        | cons d tail' =>
            simp only [hbehind] at hrest
            by_cases hd : d = close
            · rw [if_pos hd] at hrest
              cases hrest
              rw [skipFiller_more more hbehind (hd ▸ hclose)]
              simp [hd]
            · by_cases hcomma : d = ','
              · rw [if_neg hd, if_pos hcomma] at hrest
                obtain ⟨⟨others, rest'⟩, hothers, hsame⟩ := Option.map_eq_some_iff.1 hrest
                cases hsame
                subst hcomma
                rw [skipFiller_more more hbehind (by decide)]
                simp [hd, hlater _ _ _ hothers more]
              · rw [if_neg hd, if_neg hcomma] at hrest
                cases hrest

theorem begins_valueFrom (fuel depth : Nat) : Begins (valueFrom fuel depth) := by
  have hempty : scalar [] = none := by decide
  have hreturn : ∀ cs, scalar ('\r' :: cs) = none := by
    intro cs
    refine scalar_of_not_isWordChar (by decide) cs ?_
    simp [Quotation.read, Quotation.onOneLine]
  cases fuel with
  | zero => exact ⟨by simp [valueFrom], fun cs => by simp [valueFrom]⟩
  | succ fuel =>
      exact ⟨by simpa [valueFrom] using hempty, fun cs => by simpa [valueFrom] using hreturn cs⟩

theorem dottedKey_of_simpleKey (cs : List Char) (h : simpleKey cs = none) :
    dottedKey cs = none := by
  rw [dottedKey, maxDepth, dottedKeyFrom, h]
  rfl

theorem begins_pairFrom (fuel depth : Nat) : Begins (pairFrom fuel depth) := by
  have hempty : dottedKey [] = none := dottedKey_of_simpleKey [] (by decide)
  have hreturn : ∀ cs, dottedKey ('\r' :: cs) = none := by
    intro cs
    apply dottedKey_of_simpleKey
    simp [simpleKey, Quotation.onOneLine, isKeyChar]
  cases fuel with
  | zero => exact ⟨by simp [pairFrom], fun cs => by simp [pairFrom]⟩
  | succ fuel => exact ⟨by simp [pairFrom, hempty], fun cs => by simp [pairFrom, hreturn]⟩

theorem elementsFrom_succ (fuel depth : Nat) :
    elementsFrom (fuel + 1) depth =
      sequence ']' (valueFrom fuel depth) (elementsFrom fuel depth) := by
  funext cs
  unfold elementsFrom sequence
  cases skipFiller false cs with
  | nil => simp [(begins_valueFrom fuel depth).1]
  | cons c tail =>
      by_cases hc : c = ']'
      · simp [hc]
      · simp only [if_neg hc]
        split
        · next heq => exact absurd (List.cons.inj heq).1 hc
        · refine congrArg _ (funext fun first => ?_)
          cases skipFiller false first.2 with
          | nil => rfl
          | cons d tail =>
              by_cases hd : d = ']'
              · simp [hd]
              · by_cases hcomma : d = ','
                · rw [hcomma]
                  exact Option.map_eq_bind.symm
                · simp [hd, hcomma]

theorem pairsFrom_succ (fuel depth : Nat) :
    pairsFrom (fuel + 1) depth =
      sequence '\x7d' (pairFrom fuel depth) (pairsFrom fuel depth) := by
  funext cs
  unfold pairsFrom sequence
  cases skipFiller false cs with
  | nil => simp [(begins_pairFrom fuel depth).1]
  | cons c tail =>
      by_cases hc : c = '\x7d'
      · simp [hc]
      · simp only [if_neg hc]
        split
        · next heq => exact absurd (List.cons.inj heq).1 hc
        · refine congrArg _ (funext fun first => ?_)
          cases skipFiller false first.2 with
          | nil => rfl
          | cons d tail =>
              by_cases hd : d = '\x7d'
              · simp [hd]
              · by_cases hcomma : d = ','
                · rw [hcomma]
                  exact Option.map_eq_bind.symm
                · simp [hd, hcomma]

/-- A value that begins with no bracket is read in one step. -/
theorem valueFrom_of_scalar {c : Char} (hlist : c ≠ '[') (hbraces : c ≠ '\x7b')
    (fuel depth : Nat) (cs : List Char) :
    valueFrom (fuel + 1) depth (c :: cs) = scalar (c :: cs) := by
  rw [valueFrom]
  · intro tail h
    exact absurd (List.cons.inj h).1 hlist
  · intro tail h
    exact absurd (List.cons.inj h).1 hbraces
  · intro rest depth h
    exact absurd (List.cons.inj h).1 hlist
  · intro rest depth h
    exact absurd (List.cons.inj h).1 hbraces

/-- Reading in steps goes on after a line, also with more steps. -/
structure ReadsOn (fuel : Nat) : Prop where
  value : ∀ fuel' depth, fuel ≤ fuel' → GoesOn (valueFrom fuel depth) (valueFrom fuel' depth)
  elements : ∀ fuel' depth, fuel ≤ fuel' →
    GoesOn (elementsFrom fuel depth) (elementsFrom fuel' depth)
  pairs : ∀ fuel' depth, fuel ≤ fuel' → GoesOn (pairsFrom fuel depth) (pairsFrom fuel' depth)
  pair : ∀ fuel' depth, fuel ≤ fuel' → GoesOn (pairFrom fuel depth) (pairFrom fuel' depth)

namespace ReadsOn

variable {fuel : Nat}

theorem value_succ (h : ReadsOn fuel) (fuel' depth : Nat) (hle : fuel ≤ fuel') :
    GoesOn (valueFrom (fuel + 1) depth) (valueFrom (fuel' + 1) depth) := by
  intro cs node rest hvalue more
  unfold valueFrom at hvalue
  split at hvalue
  · cases hvalue
  · cases hvalue
  · next tail depth =>
      obtain ⟨⟨items, behind⟩, hitems, hsame⟩ := Option.bind_eq_some_iff.1 hvalue
      cases hsame
      have hmore := h.elements fuel' depth hle _ _ _ hitems more
      simp [valueFrom, hmore]
  · next tail depth =>
      obtain ⟨⟨pairs, behind⟩, hpairs, hrest⟩ := Option.bind_eq_some_iff.1 hvalue
      obtain ⟨members, hmembers, hsame⟩ := Option.bind_eq_some_iff.1 hrest
      cases hsame
      have hmore := h.pairs fuel' depth hle _ _ _ hpairs more
      simp [valueFrom, hmore, hmembers]
  · next hlist₀ hbraces₀ hlist hbraces =>
      cases cs with
      | nil =>
          have hempty : scalar [] = none := by decide
          rw [hempty] at hvalue
          cases hvalue
      | cons c tail =>
          have hc : c ≠ '[' ∧ c ≠ '\x7b' := by
            constructor
            · rintro rfl
              cases depth with
              | zero => exact hlist₀ tail rfl rfl
              | succ depth => exact hlist tail depth rfl rfl
            · rintro rfl
              cases depth with
              | zero => exact hbraces₀ tail rfl rfl
              | succ depth => exact hbraces tail depth rfl rfl
          rw [List.cons_append, valueFrom_of_scalar hc.1 hc.2]
          exact scalar_more more hvalue

theorem pair_succ (h : ReadsOn fuel) (fuel' depth : Nat) (hle : fuel ≤ fuel') :
    GoesOn (pairFrom (fuel + 1) depth) (pairFrom (fuel' + 1) depth) := by
  intro cs p rest hpair more
  unfold pairFrom at hpair ⊢
  obtain ⟨⟨key, behind⟩, hkey, hvalue⟩ := Option.bind_eq_some_iff.1 hpair
  refine Option.bind_eq_some_iff.2 ⟨_, dottedKeyFrom_more more hkey, ?_⟩
  dsimp only at hvalue ⊢
  rw [skipSpaces_more]
  split at hvalue
  · next tail hequals =>
      obtain ⟨⟨node, behind'⟩, hnode, hsame⟩ := Option.bind_eq_some_iff.1 hvalue
      cases hsame
      rw [hequals, List.cons_append]
      refine Option.bind_eq_some_iff.2 ⟨(node, behind' ++ '\n' :: more), ?_, rfl⟩
      rw [skipSpaces_more]
      exact h.value fuel' depth hle _ _ _ hnode more
  · cases hvalue

end ReadsOn

theorem readsOn (fuel : Nat) : ReadsOn fuel := by
  induction fuel with
  | zero =>
      refine ⟨?_, ?_, ?_, ?_⟩ <;> intro fuel' depth _ cs a rest h <;>
        simp [valueFrom, elementsFrom, pairsFrom, pairFrom] at h
  | succ fuel ih =>
      refine ⟨?_, ?_, ?_, ?_⟩
      all_goals
        intro fuel' depth hle
        obtain ⟨fuel', rfl⟩ := Nat.exists_eq_add_of_le' (Nat.le_trans (Nat.le_add_left 1 fuel) hle)
      · exact ih.value_succ fuel' depth (by omega)
      · rw [elementsFrom_succ, elementsFrom_succ]
        exact sequence_goesOn (by decide) (ih.value fuel' depth (by omega))
          (begins_valueFrom fuel depth) (ih.elements fuel' depth (by omega))
      · rw [pairsFrom_succ, pairsFrom_succ]
        exact sequence_goesOn (by decide) (ih.pair fuel' depth (by omega))
          (begins_pairFrom fuel depth) (ih.pairs fuel' depth (by omega))
      · exact ih.pair_succ fuel' depth (by omega)

/-! ## Statements -/

theorem pair_goesOn : GoesOn pair pair := by
  intro cs p rest h more
  have hsteps : steps cs ≤ steps (cs ++ '\n' :: more) := by
    simp only [steps, List.length_append]
    omega
  exact (readsOn _).pair _ maxDepth hsteps _ _ _ h more

theorem expect_more {mark cs rest : List Char} (more : List Char) (h : expect mark cs = some rest) :
    expect mark (cs ++ more) = some (rest ++ more) := by
  unfold expect at h ⊢
  split at h
  · next hprefix =>
      cases h
      obtain ⟨tail, rfl⟩ := List.isPrefixOf_iff_prefix.1 hprefix
      rw [List.append_assoc, if_pos (List.isPrefixOf_iff_prefix.2 (List.prefix_append _ _))]
      simp
  · cases h

/-- The key of a header, with the brackets behind it. -/
theorem header_more {cs mark rest : List Char} {α : Type} {f : DottedKey → α} {a : α} (h : (do
      let (key, rest) ← dottedKey (skipSpaces cs)
      let rest ← expect mark (skipSpaces rest)
      return (f key, rest)) = some (a, rest)) (more : List Char) :
    (do
      let (key, rest) ← dottedKey (skipSpaces (cs ++ '\n' :: more))
      let rest ← expect mark (skipSpaces rest)
      return (f key, rest)) = some (a, rest ++ '\n' :: more) := by
  obtain ⟨⟨key, behind⟩, hkey, hrest⟩ := Option.bind_eq_some_iff.1 h
  obtain ⟨rest', hmark, hsame⟩ := Option.bind_eq_some_iff.1 hrest
  cases hsame
  refine Option.bind_eq_some_iff.2 ⟨(key, behind ++ '\n' :: more), ?_, ?_⟩
  · rw [skipSpaces_more]
    exact dottedKeyFrom_more more hkey
  · refine Option.bind_eq_some_iff.2 ⟨rest ++ '\n' :: more, ?_, rfl⟩
    rw [skipSpaces_more]
    exact expect_more _ hmark

theorem statement_goesOn : GoesOn statement statement := by
  intro cs first rest h more
  unfold statement at h
  split at h
  · exact header_more h more
  · next tail htail =>
      have hsecond : ∀ rest, tail ++ '\n' :: more = '[' :: rest → False := by
        intro rest heq
        cases tail with
        | nil => cases (List.cons.inj heq).1
        | cons c tail => exact htail tail ((List.cons.inj heq).1 ▸ rfl)
      have htable := header_more h more
      rw [List.cons_append]
      simpa [statement] using htable
  · next htables htable =>
      have hfirst : ∀ rest, cs ++ '\n' :: more = '[' :: rest → False := by
        intro rest heq
        cases cs with
        | nil => cases (List.cons.inj heq).1
        | cons c tail => exact htable tail ((List.cons.inj heq).1 ▸ rfl)
      have hfirst' : ∀ rest, cs ++ '\n' :: more = '[' :: '[' :: rest → False :=
        fun rest => hfirst ('[' :: rest)
      obtain ⟨⟨p, behind⟩, hp, hsame⟩ := Option.bind_eq_some_iff.1 h
      cases hsame
      have hmore := pair_goesOn _ _ _ hp more
      simp [statement, hmore]

theorem begins_statement : Begins statement := by
  refine ⟨?_, ?_⟩
  · simp [statement, pair, (begins_pairFrom _ _).1]
  · intro cs
    simp [statement, pair, (begins_pairFrom _ _).2]

theorem lineEnd_more {cs rest : List Char} (more : List Char) (h : lineEnd cs = some rest) :
    lineEnd (cs ++ '\n' :: more) = some (rest ++ '\n' :: more) := by
  have hcomment : ∀ cs, skipComment (cs ++ '\n' :: more) = skipComment cs ++ '\n' :: more := by
    intro cs
    cases cs with
    | nil => rfl
    | cons c tail =>
        by_cases hc : c = '#'
        · subst hc
          exact dropWhile_more (by decide) tail more
        · simp [skipComment, hc]
  unfold lineEnd at h ⊢
  simp only [skipSpaces_more, hcomment]
  dsimp only at h
  split at h
  · next hends =>
      cases h
      rw [if_pos]
      cases hrest : skipComment (skipSpaces cs) with
      | nil => rfl
      | cons c tail =>
          have hbreak : Quotation.startsBreak (c :: tail) = true := by simpa [hrest] using hends
          have hmore := Quotation.startsBreak_more ('\n' :: more) hbreak
          rw [List.cons_append] at hmore
          simp [hmore]
  · cases h

theorem statementsFrom_congr (fuel : Nat) {cs cs' : List Char}
    (h : skipFiller false cs = skipFiller false cs') :
    statementsFrom fuel cs = statementsFrom fuel cs' := by
  cases fuel with
  | zero => rfl
  | succ fuel => simp only [statementsFrom, h]

theorem statementsFrom_succ_of_cons {fuel : Nat} {cs tail : List Char} {c : Char}
    (h : skipFiller false cs = c :: tail) :
    statementsFrom (fuel + 1) cs = (statement (c :: tail)).bind fun first =>
      (lineEnd first.2).bind fun rest =>
        (statementsFrom fuel rest).bind fun more => some (first.1 :: more) := by
  simp only [statementsFrom, h]
  rfl

theorem statementsFrom_of_le {n k : Nat} {cs : List Char} {ss : List Statement} (hk : n ≤ k)
    (h : statementsFrom n cs = some ss) : statementsFrom k cs = some ss := by
  induction n generalizing cs ss k with
  | zero => cases h
  | succ n ih =>
      obtain ⟨k, rfl⟩ := Nat.exists_eq_add_of_le' (Nat.le_trans (Nat.le_add_left 1 n) hk)
      cases hskip : skipFiller false cs with
      | nil =>
          simp only [statementsFrom, hskip] at h ⊢
          exact h
      | cons c tail =>
          rw [statementsFrom_succ_of_cons hskip] at h ⊢
          obtain ⟨first, hfirst, hrest⟩ := Option.bind_eq_some_iff.1 h
          obtain ⟨rest, hend, hlater⟩ := Option.bind_eq_some_iff.1 hrest
          obtain ⟨later, hstatements, hsame⟩ := Option.bind_eq_some_iff.1 hlater
          rw [hfirst, Option.bind_some, hend, Option.bind_some, ih (by omega) hstatements]
          exact hsame

theorem statementsFrom_append {n m k : Nat} {cs more : List Char} {ss ss' : List Statement}
    (h : statementsFrom n cs = some ss) (hmore : statementsFrom m more = some ss')
    (hk : n + m ≤ k) : statementsFrom k (cs ++ '\n' :: more) = some (ss ++ ss') := by
  induction n generalizing cs ss k with
  | zero => cases h
  | succ n ih =>
      cases hskip : skipFiller false cs with
      | nil =>
          have hss : ss = [] := by
            simp only [statementsFrom, hskip] at h
            exact (Option.some.inj h).symm
          rw [hss, statementsFrom_congr k (skipFiller_more_of_nil more hskip)]
          exact statementsFrom_of_le (by omega) hmore
      | cons c tail =>
          rw [statementsFrom_succ_of_cons hskip] at h
          obtain ⟨⟨first, behind⟩, hfirst, hrest⟩ := Option.bind_eq_some_iff.1 h
          obtain ⟨rest, hend, hlater⟩ := Option.bind_eq_some_iff.1 hrest
          obtain ⟨later, hstatements, hsame⟩ := Option.bind_eq_some_iff.1 hlater
          cases hsame
          have hreturn : c ≠ '\r' := by
            rintro rfl
            rw [begins_statement.2] at hfirst
            cases hfirst
          obtain ⟨k, rfl⟩ := Nat.exists_eq_add_of_le' (show 1 ≤ k by omega)
          rw [statementsFrom_succ_of_cons (skipFiller_more more hskip hreturn)]
          have hnext := statement_goesOn _ _ _ hfirst more
          rw [List.cons_append] at hnext
          rw [hnext, Option.bind_some, lineEnd_more more hend, Option.bind_some,
            ih hstatements (by omega)]
          rfl

/-! ## Texts -/

def Reads (text : List Char) (ss : List Statement) : Prop :=
  statementsFrom (text.length + 1) text = some ss

namespace Reads

variable {text text' : List Char} {ss ss' : List Statement}

theorem nil : Reads [] [] := rfl

theorem append (h : Reads text ss) (h' : Reads text' ss') :
    Reads (text ++ '\n' :: text') (ss ++ ss') := by
  refine statementsFrom_append h h' ?_
  simp only [List.length_append, List.length_cons]
  omega

theorem singleton {s : Statement} {rest : List Char} {c : Char} {cs : List Char}
    (hfirst : skipFiller false text = c :: cs) (hs : statement (c :: cs) = some (s, rest))
    (hend : lineEnd rest = some []) : Reads text [s] := by
  cases text with
  | nil => cases hfirst
  | cons c' text =>
      rw [Reads, statementsFrom_succ_of_cons hfirst, hs]
      simp [hend, statementsFrom, skipFiller]

/-- The statements of a document are those of its text, with or without a byte order mark. -/
theorem statements_eq (h : Reads text ss) :
    statements text = some ss ∧ statements ('\uFEFF' :: text) = some ss := by
  refine ⟨?_, h⟩
  unfold statements
  split
  · next rest =>
      -- No statement begins with the mark.
      have hskip : skipFiller false ('\uFEFF' :: rest) = '\uFEFF' :: rest := by
        rw [skipFiller_cons (by decide) (by decide), if_neg (by decide), if_neg (by decide),
          if_neg (by decide)]
      have hkey : dottedKey ('\uFEFF' :: rest) = none := by
        apply dottedKey_of_simpleKey
        simp [simpleKey, Quotation.onOneLine, isKeyChar]
      have hnone : statement ('\uFEFF' :: rest) = none := by
        simp [statement, pair, steps, pairFrom, hkey]
      rw [Reads, statementsFrom_succ_of_cons hskip, hnone] at h
      cases h
  · exact h

end Reads

end Toml
end VerifierSession
