import VerifierSession.Toml.Reading

/-!
# What stands at the end of a text

Strings, keys and words at the end of a text are read in the same way if further lines follow it: a
line break belongs to none of them, and it completes none that was not complete before.

* `Quotation.read_more`: strings of all forms;
* `dottedKeyFrom_more`, `scalar_more`: keys, and values without brackets;
* `skipFiller_more`, `skipFiller_more_of_nil`: blanks, line breaks and comments.
-/

namespace VerifierSession
namespace Toml

/-! ## Runs of characters -/

section Runs

variable {p : Char → Bool} (hp : p '\n' = false) (cs more : List Char)
include hp

theorem takeWhile_more : (cs ++ '\n' :: more).takeWhile p = cs.takeWhile p := by
  induction cs with
  | nil => simp [hp]
  | cons c cs ih => cases hc : p c <;> simp [hc, ih]

theorem dropWhile_more : (cs ++ '\n' :: more).dropWhile p = cs.dropWhile p ++ '\n' :: more := by
  induction cs with
  | nil => simp [hp]
  | cons c cs ih => cases hc : p c <;> simp [hc, ih]

end Runs

namespace Quotation

variable {cs text rest : List Char} (more : List Char)

/-! ## Strings -/

@[simp] theorem prepend_eq_some {c : Char} {read : Option (List Char × List Char)} :
    prepend c read = some (text, rest) ↔ ∃ t, read = some (t, rest) ∧ text = c :: t := by
  cases read with
  | none => simp [prepend]
  | some r =>
      obtain ⟨t, r⟩ := r
      simp only [prepend, Option.map_some, Option.some.injEq, Prod.mk.injEq]
      constructor
      · rintro ⟨rfl, rfl⟩
        exact ⟨t, ⟨rfl, rfl⟩, rfl⟩
      · rintro ⟨t', ⟨rfl, rfl⟩, rfl⟩
        exact ⟨rfl, rfl⟩

theorem escape?_more {c : Char} {taken : Nat} (h : escape? cs = some (c, taken)) :
    escape? (cs ++ more) = some (c, taken) := by
  -- Enough characters stay enough, and the first ones stay the same.
  have hcount : ∀ (n k : Nat) (rest : List Char),
      (if rest.length < n then none else (codePoint? (rest.take n)).map fun c => (c, k)) =
        some (c, taken) →
      (if (rest ++ more).length < n then none
        else (codePoint? ((rest ++ more).take n)).map fun c => (c, k)) = some (c, taken) := by
    intro n k rest hrest
    by_cases hn : rest.length < n
    · rw [if_pos hn] at hrest
      cases hrest
    · rw [if_neg hn] at hrest
      have hle : n ≤ rest.length := Nat.le_of_not_lt hn
      rw [if_neg (by rw [List.length_append]; omega), List.take_append_of_le_length hle]
      exact hrest
  fun_cases escape? cs with
  | case1 rest => exact hcount 2 3 rest h
  | case2 rest => exact hcount 2 3 rest h
  | case3 rest => exact hcount 4 5 rest h
  | case4 rest => exact hcount 4 5 rest h
  | case5 => exact hcount 8 9 _ h
  | case6 => exact hcount 8 9 _ h
  | case7 => simpa [escape?, *] using h
  | case8 => cases h

theorem basic_more {skip : Nat} (h : basic skip cs = some (text, rest)) :
    basic skip (cs ++ more) = some (text, rest ++ more) := by
  fun_induction basic skip cs generalizing text with
  | case1 => cases h
  | case2 head cs skip ih => exact ih h
  | case3 cs =>
      cases h
      rfl
  | case4 cs c taken hescape ih =>
      obtain ⟨t, ht, rfl⟩ := prepend_eq_some.1 h
      simp [basic, escape?_more more hescape, ih ht]
  | case5 => cases h
  | case6 c cs hquote hslash hplain ih =>
      obtain ⟨t, ht, rfl⟩ := prepend_eq_some.1 h
      simp [basic, hplain, ih ht]
  | case7 => cases h

theorem literal_more (h : literal cs = some (text, rest)) :
    literal (cs ++ more) = some (text, rest ++ more) := by
  fun_induction literal cs generalizing text with
  | case1 => cases h
  | case2 cs =>
      cases h
      rfl
  | case3 c cs hquote hplain ih =>
      obtain ⟨t, ht, rfl⟩ := prepend_eq_some.1 h
      simp [literal, hplain, ih ht]
  | case4 => cases h

theorem onOneLine_more (h : onOneLine cs = some (text, rest)) :
    onOneLine (cs ++ more) = some (text, rest ++ more) := by
  unfold onOneLine at h
  split at h
  · exact basic_more more h
  · exact literal_more more h
  · cases h

/-! ## Strings on several lines -/

theorem startsBreak_more (h : startsBreak cs = true) : startsBreak (cs ++ more) = true := by
  unfold startsBreak at h
  split at h
  · rfl
  · rfl
  · cases h

/-- What is an escape is no line break, and no blank before one. -/
theorem startsBreak_of_escape? {r : Char × Nat} (h : escape? cs = some r) :
    startsBreak (cs.dropWhile isSpace) = false := by
  have hspace : ∀ c rest, cs = c :: rest → c ≠ ' ' ∧ c ≠ '\t' ∧ c ≠ '\n' ∧ c ≠ '\r' := by
    rintro c rest rfl
    refine ⟨?_, ?_, ?_, ?_⟩ <;> rintro rfl <;> cases h
  cases cs with
  | nil => rfl
  | cons c rest =>
      obtain ⟨h₁, h₂, h₃, h₄⟩ := hspace c rest rfl
      simp [isSpace, h₁, h₂, startsBreak, h₃, h₄]

theorem closing_more (mark : Char) (hmark : mark ≠ '\n') (h : closing mark cs = some (text, rest)) :
    closing mark (cs ++ '\n' :: more) = some (text, rest ++ '\n' :: more) := by
  match cs, h with
  | [], h =>
      cases h
      cases more <;> simp [closing, hmark.symm]
  | [a], h =>
      by_cases ha : a = mark
      · simp only [closing, ha, if_true] at h
        cases h
        simp [closing, ha, hmark.symm]
      · simp only [closing, ha, if_false] at h
        cases h
        simp [closing, ha]
  | a :: b :: tail, h =>
      by_cases ha : a = mark
      · by_cases hb : b = mark
        · simp only [closing, ha, hb, if_true] at h
          cases h
          simp [closing, ha, hb]
        · simp only [closing, ha, hb, if_true, if_false] at h
          cases h
          simp [closing, ha, hb]
      · simp only [closing, ha, if_false] at h
        cases h
        simp [closing, ha]

theorem not_marks_more {mark c : Char} (hmark : mark ≠ '\n')
    (h : ∀ tail, c = mark → cs = mark :: mark :: tail → False) :
    ∀ tail, c = mark → cs ++ '\n' :: more = mark :: mark :: tail → False := by
  intro tail hc htail
  match cs, htail with
  | [], htail => exact hmark (List.cons.inj htail).1.symm
  | [a], htail => exact hmark (List.cons.inj (List.cons.inj htail).2).1.symm
  | a :: b :: tail', htail =>
      obtain ⟨rfl, htail⟩ := List.cons.inj htail
      obtain ⟨rfl, -⟩ := List.cons.inj htail
      exact h tail' hc rfl

theorem basicLines_more {skip : Nat} {joining : Bool}
    (h : basicLines skip joining cs = some (text, rest)) :
    basicLines skip joining (cs ++ '\n' :: more) = some (text, rest ++ '\n' :: more) := by
  fun_induction basicLines skip joining cs generalizing text with
  | case1 => cases h
  | case2 joining head cs skip ih => exact ih h
  | case3 joining cs => exact closing_more more '"' (by decide) h
  | case4 joining cs hbreak ih =>
      have hmore : startsBreak ((cs ++ '\n' :: more).dropWhile isSpace) = true := by
        rw [dropWhile_more (by decide)]
        exact startsBreak_more _ hbreak
      simp [basicLines, hmore, ih h]
  | case5 joining cs hbreak c taken hescape ih =>
      have hmore := escape?_more ('\n' :: more) hescape
      obtain ⟨t, ht, rfl⟩ := prepend_eq_some.1 h
      simp [basicLines, startsBreak_of_escape? hmore, hmore, ih ht]
  | case6 => cases h
  | case7 => cases h
  | case8 cs hbreak ih =>
      have hmore : startsBreak (cs ++ '\n' :: more) = true :=
        startsBreak_more _ (by simpa using hbreak)
      simp [basicLines, hmore, ih h]
  | case9 joining cs hbreak hjoining ih =>
      have hmore : startsBreak (cs ++ '\n' :: more) = true :=
        startsBreak_more _ (by simpa using hbreak)
      obtain ⟨t, ht, rfl⟩ := prepend_eq_some.1 h
      simp [basicLines, hmore, hjoining, ih ht]
  | case10 joining c cs hquote hslash hreturn hblank ih =>
      have hmarks := not_marks_more more (by decide) hquote
      simp [basicLines, hblank, ih h]
  | case11 joining c cs hquote hslash hreturn hblank hplain ih =>
      have hmarks := not_marks_more more (by decide) hquote
      obtain ⟨t, ht, rfl⟩ := prepend_eq_some.1 h
      simp [basicLines, hblank, hplain, ih ht]
  | case12 => cases h

theorem literalLines_more (h : literalLines cs = some (text, rest)) :
    literalLines (cs ++ '\n' :: more) = some (text, rest ++ '\n' :: more) := by
  fun_induction literalLines cs generalizing text with
  | case1 => cases h
  | case2 cs => exact closing_more more '\'' (by decide) h
  | case3 cs hbreak ih =>
      obtain ⟨t, ht, rfl⟩ := prepend_eq_some.1 h
      simp [literalLines, startsBreak_more _ hbreak, ih ht]
  | case4 => cases h
  | case5 c cs hquote hreturn hplain ih =>
      have hmarks := not_marks_more more (by decide) hquote
      obtain ⟨t, ht, rfl⟩ := prepend_eq_some.1 h
      simp [literalLines, hplain, ih ht]
  | case6 => cases h

theorem dropBreak_more (hcs : cs ≠ []) (hreturn : cs ≠ ['\r']) :
    dropBreak (cs ++ '\n' :: more) = dropBreak cs ++ '\n' :: more := by
  match cs with
  | [] => exact absurd rfl hcs
  | [c] =>
      by_cases hc : c = '\n'
      · simp [dropBreak, hc]
      · have hne : c ≠ '\r' := by
          rintro rfl
          exact hreturn rfl
        simp [dropBreak, hc, hne]
  | a :: b :: tail =>
      by_cases ha : a = '\n'
      · simp [dropBreak, ha]
      · by_cases hb : a = '\r' ∧ b = '\n'
        · simp [dropBreak, hb.1, hb.2]
        · have hkept : ∀ tail, dropBreak (a :: b :: tail) = a :: b :: tail := by
            intro tail
            unfold dropBreak
            split
            · next heq => exact absurd (List.cons.inj heq).1 ha
            · next heq =>
                obtain ⟨hreturn, hrest⟩ := List.cons.inj heq
                exact absurd ⟨hreturn, (List.cons.inj hrest).1⟩ hb
            · rfl
          rw [List.cons_append, List.cons_append, hkept, hkept, List.cons_append, List.cons_append]

theorem read_more (h : read cs = some (text, rest)) :
    read (cs ++ '\n' :: more) = some (text, rest ++ '\n' :: more) := by
  fun_cases read cs with
  | case1 cs =>
      have hbreak : dropBreak (cs ++ '\n' :: more) = dropBreak cs ++ '\n' :: more := by
        refine dropBreak_more more ?_ ?_ <;> rintro rfl <;> cases h
      simp only [read, List.cons_append, hbreak]
      exact basicLines_more more h
  | case2 cs =>
      have hbreak : dropBreak (cs ++ '\n' :: more) = dropBreak cs ++ '\n' :: more := by
        refine dropBreak_more more ?_ ?_ <;> rintro rfl <;> cases h
      simp only [read, List.cons_append, hbreak]
      exact literalLines_more more h
  | case3 cs hbasic hliteral =>
      have hmarks : ∀ mark, mark ≠ '\n' → (∀ tail, cs = mark :: mark :: mark :: tail → False) →
          ∀ tail, cs ++ '\n' :: more = mark :: mark :: mark :: tail → False := by
        intro mark hmark hcs tail htail
        cases cs with
        | nil => exact hmark (List.cons.inj htail).1.symm
        | cons c cs =>
            obtain ⟨rfl, hrest⟩ := List.cons.inj htail
            exact not_marks_more more hmark (fun tail _ heq => hcs tail (heq ▸ rfl)) tail rfl hrest
      have hbasic' := hmarks '"' (by decide) hbasic
      have hliteral' := hmarks '\'' (by decide) hliteral
      have hline : onOneLine cs = some (text, rest) := by
        simpa [read] using h
      simpa [read] using onOneLine_more ('\n' :: more) hline

end Quotation
section Readers

variable {cs rest : List Char} (more : List Char)

/-! ## Keys -/

theorem skipSpaces_more (cs : List Char) :
    skipSpaces (cs ++ '\n' :: more) = skipSpaces cs ++ '\n' :: more :=
  dropWhile_more (by decide) cs more

theorem onOneLine_of_isKeyChar {c : Char} (hc : isKeyChar c = true) (cs : List Char) :
    Quotation.onOneLine (c :: cs) = none := by
  unfold Quotation.onOneLine
  split
  · next heq =>
      cases heq
      cases hc
  · next heq =>
      cases heq
      cases hc
  · rfl

theorem simpleKey_more {key : String} (h : simpleKey cs = some (key, rest)) :
    simpleKey (cs ++ '\n' :: more) = some (key, rest ++ '\n' :: more) := by
  unfold simpleKey at h ⊢
  split at h
  · next text rest' hline =>
      cases h
      rw [Quotation.onOneLine_more _ hline]
  · cases cs with
    | nil => cases h
    | cons c cs =>
        cases hc : isKeyChar c with
        | false => simp [hc] at h
        | true =>
            have hline : Quotation.onOneLine (c :: cs ++ '\n' :: more) = none :=
              onOneLine_of_isKeyChar hc _
            rw [hline]
            simp only [takeWhile_more (p := isKeyChar) (by decide),
              dropWhile_more (p := isKeyChar) (by decide)]
            dsimp only at h
            split at h
            · cases h
            · next hsome =>
                cases h
                rw [if_neg hsome]

theorem dottedKeyFrom_more {fuel : Nat} {key : DottedKey}
    (h : dottedKeyFrom fuel cs = some (key, rest)) :
    dottedKeyFrom fuel (cs ++ '\n' :: more) = some (key, rest ++ '\n' :: more) := by
  induction fuel generalizing cs key with
  | zero => cases h
  | succ fuel ih =>
      unfold dottedKeyFrom at h ⊢
      obtain ⟨⟨first, behind⟩, hfirst, hrest⟩ := Option.bind_eq_some_iff.1 h
      refine Option.bind_eq_some_iff.2 ⟨_, simpleKey_more more hfirst, ?_⟩
      dsimp only at hrest ⊢
      rw [skipSpaces_more]
      split at hrest
      · next tail hdot =>
          obtain ⟨⟨below, behind'⟩, hbelow, hkey⟩ := Option.bind_eq_some_iff.1 hrest
          cases hkey
          rw [hdot, List.cons_append]
          refine Option.bind_eq_some_iff.2 ⟨(below, behind' ++ '\n' :: more), ?_, rfl⟩
          rw [skipSpaces_more]
          exact ih hbelow
      · next hother =>
          cases hrest
          split
          · next tail hdot =>
              cases hs : skipSpaces behind with
              | nil => simp [hs] at hdot
              | cons c tail' =>
                  rw [hs] at hdot
                  exact absurd hs (fun hs => hother _ ((List.cons.inj hdot).1 ▸ hs))
          · rfl

/-! ## Words -/

theorem word_more (cs : List Char) :
    word (cs ++ '\n' :: more) = ((word cs).1, (word cs).2 ++ '\n' :: more) := by
  simp only [word, takeWhile_more (p := isWordChar) (by decide),
    dropWhile_more (p := isWordChar) (by decide)]
  cases cs.dropWhile isWordChar with
  | nil => simp
  | cons c tail =>
      by_cases hc : c = ' '
      · subst hc
        cases tail with
        | nil => simp [Scalar.isDigit]
        | cons d tail =>
            have htake := takeWhile_more (p := isWordChar) (by decide) (d :: tail) more
            have hdrop := dropWhile_more (p := isWordChar) (by decide) (d :: tail) more
            simp only [List.cons_append] at htake hdrop ⊢
            rw [htake, hdrop]
            split <;> rfl
      · simp [hc]

theorem read_of_isWordChar {c : Char} (hc : isWordChar c = true) (cs : List Char) :
    Quotation.read (c :: cs) = none := by
  unfold Quotation.read
  split
  · next heq =>
      cases heq
      cases hc
  · next heq =>
      cases heq
      cases hc
  · unfold Quotation.onOneLine
    split
    · next heq =>
        cases heq
        cases hc
    · next heq =>
        cases heq
        cases hc
    · rfl

theorem scalar_of_not_isWordChar {c : Char} (hc : isWordChar c = false) (cs : List Char)
    (hread : Quotation.read (c :: cs) = none) : scalar (c :: cs) = none := by
  have hempty : (word (c :: cs)).1 = [] := by
    simp only [word, List.takeWhile_cons, List.dropWhile_cons, hc, Bool.false_eq_true, if_false]
    split
    · rw [if_neg]
      intro hdate
      exact absurd hdate.1 (by decide)
    · rfl
  have hnode : Scalar.node? [] = none := by decide
  simp only [scalar, hread, hempty, hnode, Option.map_none]

theorem scalar_more {node : Node} (h : scalar cs = some (node, rest)) :
    scalar (cs ++ '\n' :: more) = some (node, rest ++ '\n' :: more) := by
  unfold scalar at h ⊢
  split at h
  · next text rest' hread =>
      cases h
      rw [Quotation.read_more _ hread]
  · next hnone =>
      cases cs with
      | nil => cases h
      | cons c cs =>
          cases hc : isWordChar c with
          | false =>
              have hscalar := scalar_of_not_isWordChar hc cs hnone
              simp only [scalar, hnone] at hscalar
              rw [hscalar] at h
              cases h
          | true =>
              have hread : Quotation.read (c :: cs ++ '\n' :: more) = none :=
                read_of_isWordChar hc _
              rw [hread, word_more]
              obtain ⟨node', hnode, hsame⟩ := Option.map_eq_some_iff.1 h
              cases hsame
              simp [hnode]

/-! ## What stands between values -/

theorem skipFiller_cons {c : Char} (hfeed : c ≠ '\n') (hreturn : c ≠ '\r') (inComment : Bool)
    (cs : List Char) :
    skipFiller inComment (c :: cs) =
      if inComment then if Quotation.isPlain c then skipFiller true cs else c :: cs
      else if Quotation.isSpace c then skipFiller false cs
      else if c = '#' then skipFiller true cs
      else c :: cs := by
  rw [skipFiller]
  · exact hfeed
  · intro rest h
    exact absurd h hreturn

theorem ne_return_of_isPlain {c : Char} (h : Quotation.isPlain c = true) : c ≠ '\r' := by
  rintro rfl
  cases h

theorem ne_return_of_isSpace {c : Char} (h : Quotation.isSpace c = true) : c ≠ '\r' := by
  rintro rfl
  cases h

theorem skipFiller_more_of_nil {inComment : Bool} (h : skipFiller inComment cs = []) :
    skipFiller inComment (cs ++ '\n' :: more) = skipFiller false more := by
  fun_induction skipFiller inComment cs with
  | case1 => simp [skipFiller]
  | case2 inComment cs ih => simpa [skipFiller] using ih h
  | case3 inComment cs ih => simpa [skipFiller] using ih h
  | case4 c cs hfeed hreturn hplain ih =>
      rw [List.cons_append, skipFiller_cons hfeed (ne_return_of_isPlain hplain), if_pos rfl,
        if_pos hplain]
      exact ih h
  | case5 => cases h
  | case6 inComment c cs hfeed hreturn hout hspace ih =>
      rw [List.cons_append, skipFiller_cons hfeed (ne_return_of_isSpace hspace), if_neg hout,
        if_pos hspace]
      exact ih h
  | case7 inComment cs hout hfeed hreturn hspace ih =>
      rw [List.cons_append, skipFiller_cons (by decide) (by decide), if_neg hout, if_neg hspace,
        if_pos rfl]
      exact ih h
  | case8 => cases h

/-- Where a carriage return may not stand, the next line changes nothing. -/
theorem skipFiller_more {inComment : Bool} {c : Char} (h : skipFiller inComment cs = c :: rest)
    (hc : c ≠ '\r') :
    skipFiller inComment (cs ++ '\n' :: more) = c :: (rest ++ '\n' :: more) := by
  fun_induction skipFiller inComment cs with
  | case1 => cases h
  | case2 inComment cs ih => simpa [skipFiller] using ih h
  | case3 inComment cs ih => simpa [skipFiller] using ih h
  | case4 c' cs hfeed hreturn hplain ih =>
      rw [List.cons_append, skipFiller_cons hfeed (ne_return_of_isPlain hplain), if_pos rfl,
        if_pos hplain]
      exact ih h
  | case5 c' cs hfeed hreturn hplain =>
      cases h
      rw [List.cons_append, skipFiller_cons hfeed hc, if_pos rfl, if_neg hplain]
  | case6 inComment c' cs hfeed hreturn hout hspace ih =>
      rw [List.cons_append, skipFiller_cons hfeed (ne_return_of_isSpace hspace), if_neg hout,
        if_pos hspace]
      exact ih h
  | case7 inComment cs hout hfeed hreturn hspace ih =>
      rw [List.cons_append, skipFiller_cons (by decide) (by decide), if_neg hout, if_neg hspace,
        if_pos rfl]
      exact ih h
  | case8 inComment c' cs hfeed hreturn hout hspace hhash =>
      cases h
      rw [List.cons_append, skipFiller_cons hfeed hc, if_neg hout, if_neg hspace, if_neg hhash]

end Readers

end Toml
end VerifierSession
