import VerifierSession.Proofs.Statements

/-!
# Keys with values, as they are written

A text between quotation marks may be spelled in many ways, and whichever is taken, the text is
read.  A line with a key, an equals sign and a value is the statement it is meant to be.

* `Quotation.Spells`: the spellings of a text; every text has one (`Quotation.exists_spells`), and
  `scalar_quoted` reads all of them;
* `reads_line`: a line with a key and a value.
-/

namespace VerifierSession
namespace Toml
namespace Quotation

/-! ## Spellings -/

/-- The ways to write a character between quotation marks. -/
inductive SpellsChar : List Char → Char → Prop where
  | plain {c : Char} (hplain : isPlain c = true) (hquote : c ≠ '"') (hslash : c ≠ '\\') :
      SpellsChar [c] c
  | letter {mark c : Char} (hvalue : escapeValue? mark = some c) : SpellsChar ['\\', mark] c
  | digits {mark c : Char} {digits : List Char} {values : List Nat}
      (hcount : (mark, digits.length) ∈ [('x', 2), ('u', 4), ('U', 8)])
      (hvalues : digits.mapM (Scalar.digitValue? 16) = some values)
      (hvalue : Scalar.ofDigits 16 values = c.toNat) : SpellsChar ('\\' :: mark :: digits) c

/-- The ways to write a text between quotation marks, character by character. -/
inductive Spells : List Char → List Char → Prop where
  | nil : Spells [] []
  | cons {spelling body text : List Char} {c : Char} :
      SpellsChar spelling c → Spells body text → Spells (spelling ++ body) (c :: text)

theorem spellsChar_control {c : Char} (h : isPlain c = false) :
    ∃ spelling, SpellsChar spelling c := by
  have hdigits : ∀ n < 0x80, ∃ values,
      [Nat.digitChar (n / 16), Nat.digitChar (n % 16)].mapM (Scalar.digitValue? 16) = some values ∧
        Scalar.ofDigits 16 values = n := by
    intro n hn
    refine ⟨[n / 16, n % 16], ?_⟩
    revert n
    decide
  have hn : c.toNat < 0x80 := by
    simp only [isPlain, Bool.or_eq_false_iff, Bool.and_eq_false_iff, decide_eq_false_iff_not,
      bne_eq_false_iff_eq] at h
    omega
  obtain ⟨values, hvalues, hvalue⟩ := hdigits c.toNat hn
  have hcount : ('x', 2) ∈ [('x', 2), ('u', 4), ('U', 8)] := List.mem_cons_self
  exact ⟨_, .digits hcount hvalues hvalue⟩

theorem exists_spellsChar (c : Char) : ∃ spelling, SpellsChar spelling c := by
  cases hplain : isPlain c with
  | false => exact spellsChar_control hplain
  | true =>
      by_cases hquote : c = '"'
      · have hvalue : escapeValue? '"' = some c := by rw [hquote]; rfl
        exact ⟨_, .letter hvalue⟩
      · by_cases hslash : c = '\\'
        · have hvalue : escapeValue? '\\' = some c := by rw [hslash]; rfl
          exact ⟨_, .letter hvalue⟩
        · exact ⟨[c], .plain hplain hquote hslash⟩

/-- Every text can be written. -/
theorem exists_spells (text : List Char) : ∃ body, Spells body text := by
  induction text with
  | nil => exact ⟨[], .nil⟩
  | cons c text ih =>
      obtain ⟨spelling, hspelling⟩ := exists_spellsChar c
      obtain ⟨body, hbody⟩ := ih
      exact ⟨_, .cons hspelling hbody⟩

/-! ## Reading them -/

theorem basic_append (taken rest : List Char) :
    basic taken.length (taken ++ rest) = basic 0 rest := by
  induction taken with
  | nil => rfl
  | cons c taken ih => simpa [basic] using ih

theorem codePoint?_eq_some {digits : List Char} {values : List Nat} {c : Char}
    (hvalues : digits.mapM (Scalar.digitValue? 16) = some values)
    (hvalue : Scalar.ofDigits 16 values = c.toNat) : codePoint? digits = some c := by
  have hvalid : c.toNat.isValidChar := c.valid
  simp only [codePoint?, hvalues, hvalue, if_pos hvalid, Char.ofNat_toNat]

theorem escape?_letter {mark c : Char} (h : escapeValue? mark = some c) (rest : List Char) :
    escape? (mark :: rest) = some (c, 1) := by
  have hmark : mark ≠ 'x' ∧ mark ≠ 'u' ∧ mark ≠ 'U' := by
    refine ⟨?_, ?_, ?_⟩ <;> rintro rfl <;> cases h
  simp [escape?, hmark, h]

theorem escape?_digits {mark c : Char} {digits : List Char}
    (hcount : (mark, digits.length) ∈ [('x', 2), ('u', 4), ('U', 8)])
    (hvalue : codePoint? digits = some c) (rest : List Char) :
    escape? (mark :: (digits ++ rest)) = some (c, digits.length + 1) := by
  have htake : (digits ++ rest).take digits.length = digits := List.take_left
  have hlength : ¬ (digits ++ rest).length < digits.length := by
    rw [List.length_append]
    omega
  simp only [List.mem_cons, List.not_mem_nil, or_false, Prod.mk.injEq] at hcount
  rcases hcount with ⟨rfl, hn⟩ | ⟨rfl, hn⟩ | ⟨rfl, hn⟩ <;>
    · rw [hn] at htake hlength ⊢
      simp only [escape?, if_neg hlength, htake, hvalue, Option.map_some]

theorem SpellsChar.basic_eq {spelling : List Char} {c : Char} (h : SpellsChar spelling c)
    (rest : List Char) : basic 0 (spelling ++ rest) = prepend c (basic 0 rest) := by
  cases h with
  | plain hplain hquote hslash => simp [basic, hplain]
  | @letter mark _ hvalue =>
      have hescape := escape?_letter hvalue rest
      simp [basic, hescape]
  | @digits mark _ digits values hcount hvalues hvalue =>
      have hescape := escape?_digits hcount (codePoint?_eq_some hvalues hvalue) rest
      have hstep : basic 0 ('\\' :: mark :: digits ++ rest) =
          prepend c (basic (mark :: digits).length (mark :: digits ++ rest)) := by
        simp [basic, hescape]
      rw [hstep, basic_append]

/-- Whichever way a text is written, it is read up to the closing mark. -/
theorem Spells.basic_eq {body text : List Char} (h : Spells body text) (rest : List Char) :
    basic 0 (body ++ '"' :: rest) = some (text, rest) := by
  induction h with
  | nil => rfl
  | cons hchar _ ih =>
      rw [List.append_assoc, hchar.basic_eq, ih]
      rfl

theorem Spells.head?_ne {body text : List Char} (h : Spells body text) (tail : List Char) :
    body ≠ '"' :: tail := by
  cases h with
  | nil => exact (List.cons_ne_nil '"' tail).symm
  | cons hchar _ =>
      intro heq
      cases hchar with
      | plain _ hquote _ => exact hquote (List.cons.inj heq).1
      | letter _ => cases (List.cons.inj heq).1
      | digits _ _ _ => cases (List.cons.inj heq).1

def quoted (body : List Char) : List Char :=
  '"' :: (body ++ ['"'])

theorem Spells.read_quoted {body text : List Char} (h : Spells body text) :
    read (quoted body) = some (text, []) := by
  unfold read quoted
  split
  · next tail heq =>
      -- Three marks would be two and one of the text.
      have hbody := (List.cons.inj heq).2
      cases body with
      | nil => cases hbody
      | cons c body => exact absurd (congrArg (· :: body) (List.cons.inj hbody).1) (h.head?_ne body)
  · next heq => cases (List.cons.inj heq).1
  · exact h.basic_eq []

end Quotation

/-! ## Lines -/

theorem scalar_quoted {body text : List Char} (h : Quotation.Spells body text) :
    scalar (Quotation.quoted body) = some (.text (String.ofList text), []) := by
  simp only [scalar, h.read_quoted]

def line (key value : List Char) : List Char :=
  key ++ ' ' :: '=' :: ' ' :: value

section Line

variable {key : List Char} (hkey : ∀ c ∈ key, isKeyChar c = true) (hne : key ≠ [])
include hkey hne

theorem simpleKey_append {c : Char} (hc : isKeyChar c = false) (rest : List Char) :
    simpleKey (key ++ c :: rest) = some (String.ofList key, c :: rest) := by
  have htake : (key ++ c :: rest).takeWhile isKeyChar = key := by
    rw [List.takeWhile_append_of_pos hkey, List.takeWhile_cons, hc]
    simp
  have hdrop : (key ++ c :: rest).dropWhile isKeyChar = c :: rest := by
    rw [List.dropWhile_append_of_pos hkey, List.dropWhile_cons, hc]
    rfl
  have hquotes : Quotation.onOneLine (key ++ c :: rest) = none := by
    obtain ⟨first, key', rfl⟩ := List.exists_cons_of_ne_nil hne
    exact onOneLine_of_isKeyChar (hkey first List.mem_cons_self) (key' ++ c :: rest)
  simp only [simpleKey, hquotes, htake, hdrop, List.isEmpty_iff, hne, if_false]

/-- A key with an equals sign and a value that begins with neither a bracket nor a blank. -/
theorem pair_line {c : Char} {value : List Char} {node : Node}
    (hc : c ∉ ['[', '\x7b', ' ', '\t']) (hvalue : scalar (c :: value) = some (node, [])) :
    pair (line key (c :: value)) = some (([], String.ofList key, node), []) := by
  simp only [List.mem_cons, List.not_mem_nil, or_false, not_or] at hc
  obtain ⟨hlist, hbraces, hblank, htab⟩ := hc
  have hequals : skipSpaces (' ' :: '=' :: ' ' :: c :: value) = '=' :: ' ' :: c :: value := rfl
  have hstays : skipSpaces ('=' :: ' ' :: c :: value) = '=' :: ' ' :: c :: value := rfl
  have hbehind : skipSpaces (' ' :: c :: value) = c :: value := by
    simp [skipSpaces, Quotation.isSpace, hblank, htab]
  have hdotted : dottedKey (line key (c :: value)) =
      some (⟨[], String.ofList key⟩, '=' :: ' ' :: c :: value) := by
    rw [dottedKey, maxDepth, dottedKeyFrom, line, simpleKey_append hkey hne (by decide)]
    simp [hequals]
  have hsteps : steps (line key (c :: value)) = steps (line key (c :: value)) - 2 + 1 + 1 := by
    simp only [steps]
    omega
  rw [pair, hsteps, pairFrom, hdotted]
  simp [hstays, hbehind, valueFrom_of_scalar hlist hbraces, hvalue]

theorem reads_line {c : Char} {value : List Char} {node : Node}
    (hc : c ∉ ['[', '\x7b', ' ', '\t']) (hvalue : scalar (c :: value) = some (node, [])) :
    Reads (line key (c :: value)) [.pair ([], String.ofList key, node)] := by
  have hpair := pair_line hkey hne hc hvalue
  obtain ⟨first, key', rfl⟩ := List.exists_cons_of_ne_nil hne
  -- What a key begins with is neither filler nor the bracket of a header.
  have hfirst : ∀ d, isKeyChar d = false → first ≠ d := by
    rintro d hd rfl
    rw [hkey first List.mem_cons_self] at hd
    cases hd
  have hskip : skipFiller false (line (first :: key') (c :: value)) =
      first :: (key' ++ ' ' :: '=' :: ' ' :: c :: value) := by
    rw [line, List.cons_append, skipFiller_cons (hfirst _ (by decide)) (hfirst _ (by decide))]
    have hspace : Quotation.isSpace first = false := by
      simp [Quotation.isSpace, hfirst ' ' (by decide), hfirst '\t' (by decide)]
    simp [hspace, hfirst '#' (by decide)]
  have hend : lineEnd [] = some [] := rfl
  refine Reads.singleton hskip ?_ hend
  change pair (first :: (key' ++ ' ' :: '=' :: ' ' :: c :: value)) = _ at hpair
  simp [statement, hfirst '[' (by decide), hpair]

end Line

end Toml
end VerifierSession
