import VerifierSession.Json.Record
import VerifierSession.Proofs.Grammar

/-!
# Written values

How values are written as JSON, without white space, and that the readers read them back.

* `quote`, `digits` and `writeObject` write a string, an integer and the members of an object;
* `Reads`: a reader reads a text as a value wherever the text stands in an object;
* `readMembers_eq`: members fill the slots of their fields, one after the other, in any order;
* `readRecord_isObject`: so an object is read as the record whose fields it fills.
-/

namespace VerifierSession
namespace Json

/-! ## Strings -/

/-- The letter that stands for a character behind a backslash, if there is one. -/
def escapeLetter? (c : Char) : Option Char :=
  match c with
  | '"' => some '"'
  | '\\' => some '\\'
  | '\x08' => some 'b'
  | '\x0c' => some 'f'
  | '\n' => some 'n'
  | '\r' => some 'r'
  | '\t' => some 't'
  | _ => none

/-- A character as it is written in a string: other control characters in hexadecimal digits. -/
def escape (c : Char) : List Char :=
  match escapeLetter? c with
  | some letter => ['\\', letter]
  | none =>
      if c.toNat < 0x20 then
        ['\\', 'u', '0', '0', Nat.digitChar (c.toNat / 16), Nat.digitChar (c.toNat % 16)]
      else [c]

def quote (s : String) : List Char :=
  '"' :: (s.toList.flatMap escape ++ ['"'])

namespace Quotation

theorem readFrom_inside {state next : State} {c : Char} {p : Place} {settled : Option Char}
    (h : step true p state c = .ok (.inside next settled)) (cs : List Char) :
    readFrom true state (c :: cs) p =
      (readFrom true next cs (p.past c)).map fun r => (settled.toList ++ r.1, r.2) := by
  cases hrest : readFrom true next cs (p.past c) with
  | error fault => simp [readFrom, h, hrest, bind, Except.bind, Except.map]
  | ok r => simp [readFrom, h, hrest, bind, Except.bind, Except.map, pure, Except.pure]

theorem readFrom_plain {c : Char} (hquote : c ≠ '"') (hslash : c ≠ '\\') (hc : 0x20 ≤ c.toNat)
    (cs : List Char) (p : Place) :
    readFrom true .plain (c :: cs) p =
      (readFrom true .plain cs (p.past c)).map fun r => (c :: r.1, r.2) := by
  have hstep : step true p .plain c = .ok (.inside .plain (some c)) := by
    simp [step, hquote, hslash, Nat.not_lt.2 hc]
  exact readFrom_inside hstep cs

theorem readFrom_short {letter c : Char} (hletter : letter ≠ 'u')
    (hvalue : escapeValue? letter = some c) (cs : List Char) (p : Place) :
    readFrom true .plain ('\\' :: letter :: cs) p =
      (readFrom true .plain cs ((p.past '\\').past letter)).map fun r => (c :: r.1, r.2) := by
  have hopen : step true p .plain '\\' = .ok (.inside .escape none) := rfl
  have hstep : step true (p.past '\\') .escape letter = .ok (.inside .plain (some c)) := by
    simp [step, hletter, hvalue]
  rw [readFrom_inside hopen, readFrom_inside hstep]
  cases readFrom true .plain cs ((p.past '\\').past letter) <;> rfl

theorem hexValue?_digitChar :
    ∀ n < 16, hexValue? (Nat.digitChar n) = some n ∧ (Nat.digitChar n).utf8Size = 1 := by
  decide

theorem step_hex {n : Nat} (hn : n < 16) (p : Place) (owed value : Nat) :
    step true p (.hex (owed + 2) (some value) none) (Nat.digitChar n) =
      .ok (.inside (.hex (owed + 1) (some (value * 16 + n)) none) none) := by
  rcases hexValue?_digitChar n hn with ⟨hvalue, hsize⟩
  simp [step, hvalue, hsize]

theorem step_hex_last {n : Nat} (hn : n < 16) (p : Place) {value : Nat}
    (hvalue : value * 16 + n < 0x20) :
    step true p (.hex 1 (some value) none) (Nat.digitChar n) =
      .ok (.inside .plain (some (Char.ofNat (value * 16 + n)))) := by
  rcases hexValue?_digitChar n hn with ⟨hdigit, hsize⟩
  have htrail : isTrail (value * 16 + n) = false := by simp [isTrail]; omega
  have hlead : isLead (value * 16 + n) = false := by simp [isLead]; omega
  simp [step, hdigit, hsize, settle, htrail, hlead]

theorem readFrom_control {c : Char} (hc : c.toNat < 0x20) (cs : List Char) (p : Place) :
    ∃ p', readFrom true .plain
        ('\\' :: 'u' :: '0' :: '0' :: Nat.digitChar (c.toNat / 16) ::
          Nat.digitChar (c.toNat % 16) :: cs) p =
      (readFrom true .plain cs p').map fun r => (c :: r.1, r.2) := by
  have hhigh : c.toNat / 16 < 16 := by omega
  have hlow : c.toNat % 16 < 16 := by omega
  have hsum : c.toNat / 16 * 16 + c.toNat % 16 = c.toNat := by omega
  have hopen : ∀ p, step true p .plain '\\' = .ok (.inside .escape none) := fun _ => rfl
  have hmark : ∀ p, step true p .escape 'u' = .ok (.inside (.hex 4 (some 0) none) none) :=
    fun _ => rfl
  have hzero : ∀ p owed, step true p (.hex (owed + 2) (some 0) none) '0' =
      .ok (.inside (.hex (owed + 1) (some 0) none) none) := by
    intro p owed
    exact step_hex (by omega : 0 < 16) p owed 0
  have hfirst : ∀ p, step true p (.hex 2 (some 0) none) (Nat.digitChar (c.toNat / 16)) =
      .ok (.inside (.hex 1 (some (c.toNat / 16)) none) none) := by
    intro p
    simpa using step_hex hhigh p 0 0
  have hsecond : ∀ p, step true p (.hex 1 (some (c.toNat / 16)) none)
      (Nat.digitChar (c.toNat % 16)) = .ok (.inside .plain (some c)) := by
    intro p
    rw [step_hex_last hlow p (by omega), hsum, Char.ofNat_toNat]
  refine ⟨(((((p.past '\\').past 'u').past '0').past '0').past
    (Nat.digitChar (c.toNat / 16))).past (Nat.digitChar (c.toNat % 16)), ?_⟩
  rw [readFrom_inside (hopen _), readFrom_inside (hmark _), readFrom_inside (hzero _ 2),
    readFrom_inside (hzero _ 1), readFrom_inside (hfirst _), readFrom_inside (hsecond _)]
  -- The steps before the last one settle nothing.
  cases readFrom true .plain cs _ <;> rfl

theorem escapeValue?_of_letter {c letter : Char} (h : escapeLetter? c = some letter) :
    letter ≠ 'u' ∧ escapeValue? letter = some c := by
  unfold escapeLetter? at h
  split at h <;> cases h <;> exact ⟨by decide, rfl⟩

theorem readFrom_escape (c : Char) (cs : List Char) (p : Place) :
    ∃ p', readFrom true .plain (escape c ++ cs) p =
      (readFrom true .plain cs p').map fun r => (c :: r.1, r.2) := by
  cases hletter : escapeLetter? c with
  | some letter =>
      rcases escapeValue?_of_letter hletter with ⟨hu, hvalue⟩
      exact ⟨_, by simpa [escape, hletter] using readFrom_short hu hvalue cs p⟩
  | none =>
      by_cases hcontrol : c.toNat < 0x20
      · simpa [escape, hletter, hcontrol] using readFrom_control hcontrol cs p
      · have hquote : c ≠ '"' := by
          rintro rfl
          cases hletter
        have hslash : c ≠ '\\' := by
          rintro rfl
          cases hletter
        exact ⟨_, by simpa [escape, hletter, hcontrol] using
          readFrom_plain hquote hslash (Nat.not_lt.1 hcontrol) cs p⟩

theorem readFrom_escaped (cs rest : List Char) (p : Place) :
    ∃ p', readFrom true .plain (cs.flatMap escape ++ '"' :: rest) p = .ok (cs, ⟨rest, p'⟩) := by
  induction cs generalizing p with
  | nil => exact ⟨p.past '"', rfl⟩
  | cons c cs ih =>
      rcases readFrom_escape c (cs.flatMap escape ++ '"' :: rest) p with ⟨p', hfirst⟩
      rcases ih p' with ⟨p'', hrest⟩
      refine ⟨p'', ?_⟩
      rw [List.flatMap_cons, List.append_assoc, hfirst, hrest]
      rfl

end Quotation

/-! ## Values in an object -/

theorem Cursor.skipBlank_cons {ch : Char} (h : isJsonBlank ch = false) (rest : List Char)
    (place : Place) : (Cursor.mk (ch :: rest) place).skipBlank = ⟨ch :: rest, place⟩ := by
  simp [skipBlank, skipWhile, h]

/-- Whether a text may follow a value in an object. -/
def Follows (rest : List Char) : Prop :=
  ∃ ch tail, rest = ch :: tail ∧ (ch = ',' ∨ ch = '\x7d')

/-- A reader reads a text as a value, wherever it stands in an object. -/
def Reads {α : Type} (read : Reader α) (text : List Char) (v : α) : Prop :=
  ∀ rest place, Follows rest → ∃ place', read ⟨text ++ rest, place⟩ = .ok (v, ⟨rest, place'⟩)

theorem readQuotation_escaped (s : String) (rest : List Char) (place : Place) :
    ∃ place', readQuotation ⟨s.toList.flatMap escape ++ '"' :: rest, place⟩ =
      .ok (s, ⟨rest, place'⟩) := by
  rcases Quotation.readFrom_escaped s.toList rest place with ⟨place', hread⟩
  refine ⟨place', ?_⟩
  simp [readQuotation, hread, bind, Except.bind, pure, Except.pure]

theorem reads_text (s : String) : Reads readText (quote s) (.text s) := by
  intro rest place _
  rcases readQuotation_escaped s rest (place.past '"') with ⟨place', hread⟩
  refine ⟨place', ?_⟩
  have hblank : isJsonBlank '"' = false := by decide
  simp [readText, quote, Cursor.skipBlank_cons hblank, Cursor.advance, hread, bind, Except.bind,
    pure, Except.pure]

/-! ## Integers -/

def digits (n : Int) : List Char :=
  (toString n).toList

theorem digits_ofNat (n : Nat) : digits n = Nat.toDigits 10 n := by
  simp [digits, toString, Int.repr, Nat.repr]

theorem digits_negSucc (n : Nat) : digits (Int.negSucc n) = '-' :: Nat.toDigits 10 (n + 1) := by
  simp [digits, toString, Int.repr, Nat.repr]

theorem isDigit_of_mem_toDigits {n : Nat} {c : Char} (h : c ∈ Nat.toDigits 10 n) :
    isDigit c = true := by
  have hdigit := Nat.isDigit_of_mem_toDigits (by decide) (by decide) h
  simpa [isDigit, Char.isDigit, Char.le_def] using hdigit

theorem exists_toDigits_eq_cons {n : Nat} (hn : n ≠ 0) :
    ∃ d ds, Nat.toDigits 10 n = d :: ds ∧ d ≠ '0' := by
  induction n using Nat.strongRecOn with
  | ind n ih =>
      by_cases hsmall : n < 10
      · have hfirst : ∀ m < 10, m ≠ 0 → Nat.digitChar m ≠ '0' := by decide
        exact ⟨Nat.digitChar n, [], Nat.toDigits_of_lt_base hsmall, hfirst n hsmall hn⟩
      · rcases ih (n / 10) (by omega) (by omega) with ⟨d, ds, hdigits, hd⟩
        refine ⟨d, ds ++ [Nat.digitChar (n % 10)], ?_, hd⟩
        rw [Nat.toDigits_of_base_le (by omega) (by omega), hdigits, List.cons_append]

theorem exists_toDigits_eq_isDigit_cons (n : Nat) :
    ∃ d ds, Nat.toDigits 10 n = d :: ds ∧ isDigit d = true := by
  cases hdigits : Nat.toDigits 10 n with
  | nil => exact absurd hdigits Nat.toDigits_ne_nil
  | cons d ds =>
      have hmem : d ∈ Nat.toDigits 10 n := by simp [hdigits]
      exact ⟨d, ds, rfl, isDigit_of_mem_toDigits hmem⟩

theorem Follows.ends {rest : List Char} (h : Follows rest) : Ends rest := by
  rcases h with ⟨ch, tail, rfl, rfl | rfl⟩
  · exact ends_cons (.inl rfl)
  · exact ends_cons (.inr (.inr rfl))

theorem Ends.not_isDigit {ch : Char} {tail : List Char} (h : Ends (ch :: tail)) :
    isDigit ch = false := by
  cases hdigit : isDigit ch with
  | false => rfl
  | true =>
      have hnumeric := isNumeric_of_ends h
      simp [isNumeric, hdigit] at hnumeric

theorem takeDigits_append {ds rest : List Char} (hds : ∀ d ∈ ds, isDigit d = true)
    (hrest : Ends rest) (place : Place) :
    ∃ place', (Cursor.mk (ds ++ rest) place).takeDigits = (ds.map digitValue, ⟨rest, place'⟩) := by
  have htake : (ds ++ rest).takeWhile isDigit = ds := by
    rw [List.takeWhile_append_of_pos hds]
    cases rest with
    | nil => simp
    | cons ch tail => simp [hrest.not_isDigit]
  have hskip : ∃ place', Cursor.skipWhile isDigit (ds ++ rest) place = ⟨rest, place'⟩ := by
    clear htake
    induction ds generalizing place with
    | nil =>
        cases rest with
        | nil => exact ⟨place, rfl⟩
        | cons ch tail => exact ⟨place, by simp [Cursor.skipWhile, hrest.not_isDigit]⟩
    | cons d ds ih =>
        rcases ih (fun d' hd' => hds d' (List.mem_cons_of_mem _ hd')) (place.past d) with
          ⟨place', hlater⟩
        exact ⟨place', by simp [Cursor.skipWhile, hds d List.mem_cons_self, hlater]⟩
  rcases hskip with ⟨place', hskip⟩
  exact ⟨place', by simp [Cursor.takeDigits, htake, hskip]⟩

namespace Numeral

theorem le_ofDigitChars (cs : List Char) (init : Nat) : init ≤ Nat.ofDigitChars 10 cs init := by
  induction cs generalizing init with
  | nil => simp
  | cons c cs ih =>
      have hrest := ih (10 * init + (c.toNat - '0'.toNat))
      rw [Nat.ofDigitChars_cons]
      omega

theorem absorb_map_digitValue (cs : List Char) (init : Nat)
    (h : Nat.ofDigitChars 10 cs init < Decimal.twoTo 64) :
    absorb init (cs.map digitValue) = (Nat.ofDigitChars 10 cs init, []) := by
  induction cs generalizing init with
  | nil => simp [absorb]
  | cons c cs ih =>
      rw [Nat.ofDigitChars_cons] at h ⊢
      have hle := le_ofDigitChars cs (10 * init + (c.toNat - '0'.toNat))
      have hvalue : init * 10 + digitValue c = 10 * init + (c.toNat - '0'.toNat) := by
        rw [Nat.mul_comm, digitValue]
      have hfits : init * 10 + digitValue c < Decimal.twoTo 64 := by
        rw [hvalue]
        exact Nat.lt_of_le_of_lt hle h
      rw [List.map_cons, absorb, if_pos hfits, hvalue, ih _ h]

theorem readTail_of_ends (minus : Bool) (n : Nat) {rest : List Char} (h : Ends rest)
    (place : Place) : readTail minus n 0 ⟨rest, place⟩ = whole minus n ⟨rest, place⟩ := by
  cases rest with
  | nil => simp [readTail]
  | cons ch tail =>
      have hnumeric := isNumeric_of_ends h
      simp only [isNumeric, Bool.or_eq_false_iff, beq_eq_false_iff_ne] at hnumeric
      simp [readTail, hnumeric]

end Numeral

theorem readNumeral_toDigits (minus : Bool) {n : Nat} (hn : n < Decimal.twoTo 64)
    {rest : List Char} (hrest : Ends rest) (place : Place) :
    ∃ place', readNumeral minus ⟨Nat.toDigits 10 n ++ rest, place⟩ =
      Numeral.whole minus n ⟨rest, place'⟩ := by
  by_cases hzero : n = 0
  · -- Zero is written as one digit, and no other may follow it.
    subst hzero
    have htail := Numeral.readTail_of_ends minus 0 hrest (place.past '0')
    refine ⟨place.past '0', ?_⟩
    cases rest with
    | nil => simpa [readNumeral, Cursor.advance] using htail
    | cons ch tail => simpa [readNumeral, hrest.not_isDigit, Cursor.advance] using htail
  · -- All digits are taken, as no other number begins with a zero.
    rcases exists_toDigits_eq_cons hzero with ⟨d, ds, hdigits, hd⟩
    have hall : ∀ c ∈ d :: ds, isDigit c = true := by
      intro c hc
      exact isDigit_of_mem_toDigits (hdigits ▸ hc)
    rcases takeDigits_append hall hrest place with ⟨place', htake⟩
    have hvalue : Nat.ofDigitChars 10 (d :: ds) 0 = n := by
      rw [← hdigits]
      exact Nat.ofDigitChars_ten_toDigits
    have habsorb := Numeral.absorb_map_digitValue (d :: ds) 0 (hvalue.symm ▸ hn)
    rw [hvalue] at habsorb
    refine ⟨place', ?_⟩
    rw [hdigits, ← Numeral.readTail_of_ends minus n hrest place']
    have hfirst : isDigit d = true := hall d List.mem_cons_self
    simp only [List.cons_append, List.map_cons] at htake habsorb ⊢
    simp [readNumeral, hd, hfirst, htake, habsorb]

theorem ne_of_isDigit {c : Char} (h : isDigit c = true) :
    isJsonBlank c = false ∧ c ≠ '-' ∧ c ≠ 'n' := by
  refine ⟨?_, ?_, ?_⟩
  · cases hblank : isJsonBlank c with
    | false => rfl
    | true =>
        simp only [isJsonBlank, Bool.or_eq_true, beq_iff_eq, or_assoc] at hblank
        rcases hblank with rfl | rfl | rfl | rfl <;> cases h
  · rintro rfl
    cases h
  · rintro rfl
    cases h

theorem readInteger_of_ends {n : Int} (hlow : -(Decimal.twoTo 63 : Int) ≤ n)
    (hhigh : n < (Decimal.twoTo 63 : Int)) {rest : List Char} (hrest : Ends rest) (place : Place) :
    ∃ place', readInteger ⟨digits n ++ rest, place⟩ = .ok (.integer n, ⟨rest, place'⟩) := by
  have hbounds : Decimal.twoTo 63 < Decimal.twoTo 64 := by decide
  cases n with
  | ofNat n =>
      have hn : n < Decimal.twoTo 63 := by simpa using hhigh
      rcases readNumeral_toDigits false (by omega : n < Decimal.twoTo 64) hrest place with
        ⟨place', hread⟩
      refine ⟨place', ?_⟩
      rcases exists_toDigits_eq_isDigit_cons n with ⟨d, ds, htext, hfirst⟩
      rcases ne_of_isDigit hfirst with ⟨hblank, hminus, -⟩
      rw [htext, List.cons_append] at hread
      -- By `hminus` the first character is no sign, so the digits are read as they are.
      simp [readInteger, digits_ofNat, htext, Cursor.skipBlank_cons hblank, hfirst, hread,
        Numeral.whole, integerOf, hn, bind, Except.bind]
  | negSucc n =>
      have hn : n + 1 ≤ Decimal.twoTo 63 := by omega
      rcases readNumeral_toDigits true (by omega : n + 1 < Decimal.twoTo 64) hrest
        (place.past '-') with ⟨place', hread⟩
      refine ⟨place', ?_⟩
      have hblank : isJsonBlank '-' = false := by decide
      have hvalue : Value.integer (Int.negSucc n) = .integer (-((n + 1 : Nat) : Int)) := rfl
      rw [hvalue, digits_negSucc]
      simp [readInteger, Cursor.skipBlank_cons hblank, Cursor.advance, hread, Numeral.whole,
        integerOf, hn, bind, Except.bind]

theorem reads_integer {n : Int} (hlow : -(Decimal.twoTo 63 : Int) ≤ n)
    (hhigh : n < (Decimal.twoTo 63 : Int)) : Reads readInteger (digits n) (.integer n) :=
  fun _ place hrest => readInteger_of_ends hlow hhigh hrest.ends place

/-! ## Values that may be left out -/

/-- A text that begins with neither white space nor a word. -/
def Begins (text : List Char) : Prop :=
  ∃ ch tail, text = ch :: tail ∧ isJsonBlank ch = false ∧ ch ≠ 'n'

theorem begins_quote (s : String) : Begins (quote s) :=
  ⟨'"', _, rfl, by decide, by decide⟩

theorem begins_digits (n : Int) : Begins (digits n) := by
  cases n with
  | ofNat n =>
      rcases exists_toDigits_eq_isDigit_cons n with ⟨d, ds, htext, hfirst⟩
      rcases ne_of_isDigit hfirst with ⟨hblank, -, hword⟩
      exact ⟨d, ds, (digits_ofNat n).trans htext, hblank, hword⟩
  | negSucc n => exact ⟨'-', _, digits_negSucc n, by decide, by decide⟩

/-- A value that is there is read as if it could not be left out. -/
theorem reads_nullable {read : Reader Value} {text : List Char} {v : Value}
    (h : Reads read text v) (hbegins : Begins text) : Reads (readNullable read) text v := by
  intro rest place hrest
  rcases hbegins with ⟨ch, tail, rfl, hblank, hword⟩
  rcases h rest place hrest with ⟨place', hread⟩
  refine ⟨place', ?_⟩
  rw [List.cons_append] at hread ⊢
  simp [readNullable, Cursor.skipBlank_cons hblank, hword, hread]

/-! ## Objects -/

/-- A member of an object: its name, and its value as it is written. -/
abbrev Member : Type :=
  String × List Char

/-- Members as they are written; a comma stands before each but the first. -/
def writeMembers (first : Bool) (members : List Member) : List Char :=
  match members with
  | [] => []
  | (name, text) :: members =>
      (if first then [] else [',']) ++ quote name ++ ':' :: text ++ writeMembers false members

def writeObject (members : List Member) : List Char :=
  '\x7b' :: writeMembers true members ++ ['\x7d']

/-- A field, and what is written for it and read of that, if it is not left out. -/
structure Filling where
  field : Field
  content : Option (List Char × Value)

namespace Filling

/--
The reader of a field reads its content as the value beside it; a field may be left out only if it
can do without.
-/
def Fits (f : Filling) : Prop :=
  (∀ text v, f.content = some (text, v) → Reads f.field.read text v) ∧
    (f.content = none → f.field.unnamed.isSome = true)

/-- The member of an object that a filling stands for. -/
def member? (f : Filling) : Option Member :=
  f.content.map fun c => (f.field.name, c.1)

def value (f : Filling) : Value :=
  ((f.content.map Prod.snd).or f.field.unnamed).getD .null

/-- The slots of fields once the members with certain names are read. -/
def slots (done : List String) (fs : List Filling) : List (Option Value) :=
  fs.map fun f => if f.field.name ∈ done then f.content.map Prod.snd else none

theorem names_members_sublist (fs : List Filling) :
    ((fs.filterMap member?).map Prod.fst).Sublist (fs.map fun f => f.field.name) := by
  induction fs with
  | nil => exact List.Sublist.slnil
  | cons f fs ih =>
      cases hcontent : f.content with
      | none => simpa [member?, hcontent] using ih.cons f.field.name
      | some c => simpa [member?, hcontent] using ih

/-- Each slot has a value in the end, or its field can do without. -/
theorem fill_slots {fs : List Filling} (hfits : ∀ f ∈ fs, f.Fits) :
    fill (fs.map Filling.field) (fs.map fun f => f.content.map Prod.snd) =
      .ok (fs.map Filling.value) := by
  induction fs with
  | nil => rfl
  | cons f fs ih =>
      have hrest := ih fun g hg => hfits g (List.mem_cons_of_mem _ hg)
      have hfirst : ∃ v, (f.content.map Prod.snd).or f.field.unnamed = some v := by
        cases hcontent : f.content with
        | none => exact Option.isSome_iff_exists.1 ((hfits f List.mem_cons_self).2 hcontent)
        | some c => exact ⟨c.2, rfl⟩
      rcases hfirst with ⟨v, hv⟩
      simp [fill, hv, hrest, value, bind, Except.bind, pure, Except.pure]

end Filling

theorem findField?_map {fs : List Filling} (hfields : (fs.map fun f => f.field.name).Nodup)
    {f : Filling} (hf : f ∈ fs) :
    ∃ i, findField? (fs.map Filling.field) f.field.name = some (i, f.field) ∧ fs[i]? = some f := by
  induction fs with
  | nil => cases hf
  | cons first fs ih =>
      rw [List.map_cons, List.nodup_cons] at hfields
      rcases List.mem_cons.1 hf with rfl | hlater
      · exact ⟨0, by simp [findField?], rfl⟩
      · rcases ih hfields.2 hlater with ⟨i, hfind, hget⟩
        have hne : first.field.name ≠ f.field.name := by
          intro heq
          exact hfields.1 (heq ▸ List.mem_map_of_mem hlater)
        exact ⟨i + 1, by simp [findField?, hne, hfind], by simpa using hget⟩

namespace Filling

variable {fs : List Filling} {f : Filling} {i : Nat}

theorem content_of_member? {m : Member} (h : f.member? = some m) :
    m.1 = f.field.name ∧ ∃ v, f.content = some (m.2, v) := by
  rcases Option.map_eq_some_iff.1 h with ⟨⟨text, v⟩, hcontent, rfl⟩
  exact ⟨rfl, v, hcontent⟩

theorem set_slots (hfields : (fs.map fun f => f.field.name).Nodup) (hget : fs[i]? = some f)
    {text : List Char} {v : Value} (hcontent : f.content = some (text, v)) (done : List String) :
    (slots done fs).set i (some v) = slots (done ++ [f.field.name]) fs := by
  induction fs generalizing i with
  | nil => cases hget
  | cons first fs ih =>
      rw [List.map_cons, List.nodup_cons] at hfields
      cases i with
      | zero =>
          obtain rfl : first = f := by simpa using hget
          -- No other field has this name, so their slots stay.
          have hrest : slots done fs = slots (done ++ [first.field.name]) fs := by
            apply List.map_congr_left
            intro g hg
            have hne : g.field.name ≠ first.field.name := by
              intro heq
              exact hfields.1 (heq ▸ List.mem_map_of_mem hg)
            simp [hne]
          simpa [slots, hcontent] using hrest
      | succ i =>
          have hmem : f ∈ fs := List.mem_of_getElem? hget
          have hne : first.field.name ≠ f.field.name := by
            intro heq
            exact hfields.1 (heq ▸ List.mem_map_of_mem hmem)
          have hrest := ih hfields.2 (by simpa using hget)
          simpa [slots, hne] using hrest

end Filling

/-- A text is an object of certain members: it lists them, in some order. -/
def IsObject (members : List Member) (text : List Char) : Prop :=
  ∃ ms : List Member, ms.Perm members ∧ text = writeObject ms

theorem length_le_writeMembers (first : Bool) (members : List Member) :
    members.length ≤ (writeMembers first members).length := by
  induction members generalizing first with
  | nil => exact Nat.zero_le _
  | cons m members ih =>
      have hrest := ih false
      simp only [writeMembers, List.length_append, List.length_cons]
      omega

theorem leave_cons (close : Char) (h : isJsonBlank close = false) (rest : List Char)
    (place : Place) : leave close ⟨close :: rest, place⟩ = ⟨rest, place.past close⟩ := by
  simp [leave, Cursor.skipBlank_cons h, Cursor.advance]

theorem nextName_quote (first : Bool) (name : String) (tail : List Char) (place : Place) :
    ∃ place', nextName first
        ⟨(if first then [] else [',']) ++ (quote name ++ ':' :: tail), place⟩ =
      .ok (some name, ⟨':' :: tail, place'⟩) := by
  have hquote : isJsonBlank '"' = false := by decide
  have hcomma : isJsonBlank ',' = false := by decide
  cases first with
  | true =>
      rcases readQuotation_escaped name (':' :: tail) (place.past '"') with ⟨place', hread⟩
      refine ⟨place', ?_⟩
      simp [nextName, quote, Cursor.skipBlank_cons hquote, Cursor.advance, hread, bind, Except.bind,
        pure, Except.pure]
  | false =>
      rcases readQuotation_escaped name (':' :: tail) ((place.past ',').past '"') with
        ⟨place', hread⟩
      refine ⟨place', ?_⟩
      simp [nextName, quote, Cursor.skipBlank_cons hquote, Cursor.skipBlank_cons hcomma,
        Cursor.advance, hread, bind, Except.bind, pure, Except.pure]

theorem nextName_close (first : Bool) (rest : List Char) (place : Place) :
    nextName first ⟨'\x7d' :: rest, place⟩ = .ok (none, ⟨'\x7d' :: rest, place⟩) := by
  have hclose : isJsonBlank '\x7d' = false := by decide
  simp [nextName, Cursor.skipBlank_cons hclose, pure, Except.pure]

theorem readColon_cons (tail : List Char) (place : Place) :
    readColon ⟨':' :: tail, place⟩ = .ok ⟨tail, place.past ':'⟩ := by
  have hcolon : isJsonBlank ':' = false := by decide
  simp [readColon, Cursor.skipBlank_cons hcolon, Cursor.advance, pure, Except.pure]

theorem follows_writeMembers (members : List Member) (rest : List Char) :
    Follows (writeMembers false members ++ '\x7d' :: rest) := by
  cases members with
  | nil => exact ⟨'\x7d', rest, rfl, .inr rfl⟩
  | cons m members => exact ⟨',', _, rfl, .inl rfl⟩

section Members

variable {fs : List Filling} (hfields : (fs.map fun f => f.field.name).Nodup)
include hfields

/-- Members are read one after the other, each into the slot of its field. -/
theorem readMembers_eq {members : List Member} {done : List String}
    (hnames : (done ++ members.map Prod.fst).Nodup)
    (hmembers : ∀ m ∈ members, ∃ f ∈ fs, f.member? = some m) (hfits : ∀ f ∈ fs, f.Fits)
    {steps : Nat} (hsteps : members.length < steps) (first : Bool) (rest : List Char)
    (place : Place) :
    ∃ place', readMembers (fs.map Filling.field) steps first (Filling.slots done fs)
        ⟨writeMembers first members ++ '\x7d' :: rest, place⟩ =
      .ok (Filling.slots (done ++ members.map Prod.fst) fs, ⟨'\x7d' :: rest, place'⟩) := by
  -- A further member moves from those that are left to those that are done.
  induction members generalizing done steps first place with
  | nil =>
      cases steps with
      | zero => cases hsteps
      | succ steps =>
          refine ⟨place, ?_⟩
          simp [readMembers, writeMembers, nextName_close, bind, Except.bind, pure, Except.pure]
  | cons m members ih =>
      rcases m with ⟨name, text⟩
      cases steps with
      | zero => cases hsteps
      | succ steps =>
          rcases hmembers (name, text) List.mem_cons_self with ⟨f, hf, hmember⟩
          rcases Filling.content_of_member? hmember with ⟨rfl, v, hcontent⟩
          rcases findField?_map hfields hf with ⟨i, hfind, hget⟩
          -- No member of the same name was read before, so the slot of its field is empty.
          have hfresh : f.field.name ∉ done := by
            have hapart := (List.nodup_append.1 hnames).2.2
            intro hmem
            exact hapart _ hmem _ List.mem_cons_self rfl
          have hempty : ((Filling.slots done fs)[i]?).join.isSome = false := by
            simp [Filling.slots, hget, hfresh]
          have hlater : ∀ m ∈ members, ∃ f ∈ fs, f.member? = some m :=
            fun m hm => hmembers m (List.mem_cons_of_mem _ hm)
          have hmore : ((done ++ [f.field.name]) ++ members.map Prod.fst).Nodup := by
            simpa using hnames
          have hwritten : writeMembers first ((f.field.name, text) :: members) ++ '\x7d' :: rest =
              (if first then [] else [',']) ++ (quote f.field.name ++
                ':' :: (text ++ (writeMembers false members ++ '\x7d' :: rest))) := by
            simp [writeMembers]
          rcases nextName_quote first f.field.name
            (text ++ (writeMembers false members ++ '\x7d' :: rest)) place with ⟨place₁, hname⟩
          rcases (hfits f hf).1 text v hcontent _ (place₁.past ':')
            (follows_writeMembers members rest) with ⟨place₂, hvalue⟩
          rcases ih hmore hlater (Nat.lt_of_succ_lt_succ hsteps) false place₂ with ⟨place₃, hrest⟩
          refine ⟨place₃, ?_⟩
          rw [hwritten]
          simp [readMembers, hname, hfind, hempty, readColon_cons, hvalue,
            Filling.set_slots hfields hget hcontent, hrest, bind, Except.bind]

/-- An object is read as the record whose fields it fills, whatever the order of its members. -/
theorem readRecord_isObject {text : List Char} (title : String) (hfits : ∀ f ∈ fs, f.Fits)
    (hobject : IsObject (fs.filterMap Filling.member?) text) (rest : List Char) (place : Place) :
    ∃ place', readRecord title (fs.map Filling.field) ⟨text ++ rest, place⟩ =
      .ok (fs.map Filling.value, ⟨rest, place'⟩) := by
  rcases hobject with ⟨members, hperm, rfl⟩
  have hmembers : ∀ m ∈ members, ∃ f ∈ fs, f.member? = some m := by
    intro m hm
    exact List.mem_filterMap.1 (hperm.mem_iff.1 hm)
  have hnames : (([] : List String) ++ members.map Prod.fst).Nodup := by
    rw [List.nil_append, (hperm.map Prod.fst).nodup_iff]
    exact (Filling.names_members_sublist fs).nodup hfields
  -- The reader allows for as many members as there are characters.
  have hsteps : members.length <
      (writeMembers true members).length + (rest.length + 1) + 1 := by
    have hlength := length_le_writeMembers true members
    omega
  rcases readMembers_eq hfields hnames hmembers hfits hsteps true rest (place.past '\x7b') with
    ⟨place', hread⟩
  refine ⟨place'.past '\x7d', ?_⟩
  -- All slots are empty before, and afterwards those are that have no content.
  have hnone : (fs.map Filling.field).map (fun _ => none) = Filling.slots [] fs := by
    rw [List.map_map]
    apply List.map_congr_left
    intro f _
    exact (if_neg List.not_mem_nil).symm
  have hall : Filling.slots ([] ++ members.map Prod.fst) fs =
      fs.map fun f => f.content.map Prod.snd := by
    apply List.map_congr_left
    intro f hf
    cases hcontent : f.content with
    | none => simp
    | some c =>
        have hmember : (f.field.name, c.1) ∈ members := by
          rw [hperm.mem_iff]
          exact List.mem_filterMap.2 ⟨f, hf, by simp [Filling.member?, hcontent]⟩
        have hname : f.field.name ∈ members.map Prod.fst := List.mem_map_of_mem hmember
        simp [hname]
  have hopen : isJsonBlank '\x7b' = false := by decide
  have hclose : isJsonBlank '\x7d' = false := by decide
  rw [hall] at hread
  simp [readRecord, readObject, writeObject, Cursor.skipBlank_cons hopen, Cursor.advance, hnone,
    hread, Filling.fill_slots hfits, leave_cons _ hclose, bind, Except.bind, pure, Except.pure]

end Members

theorem exists_of_isObject {members : List Member} {text : List Char} (h : IsObject members text) :
    ∃ inner, text = '\x7b' :: (inner ++ ['\x7d']) := by
  rcases h with ⟨ms, -, rfl⟩
  exact ⟨writeMembers true ms, rfl⟩

theorem begins_isObject {members : List Member} {text : List Char} (h : IsObject members text) :
    Begins text := by
  rcases exists_of_isObject h with ⟨inner, rfl⟩
  exact ⟨'\x7b', _, rfl, by decide, by decide⟩

theorem readWhole_eq {α : Type} {read : Reader α} {text : List Char} {v : α} {place : Place}
    (h : read ⟨text ++ [], .start⟩ = .ok (v, ⟨[], place⟩)) : readWhole read text = .ok v := by
  rw [List.append_nil] at h
  simp [readWhole, Cursor.start, h, Cursor.skipBlank, Cursor.skipWhile, bind, Except.bind, pure,
    Except.pure]

end Json
end VerifierSession
