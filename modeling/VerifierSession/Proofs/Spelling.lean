import Mathlib.Data.List.TakeWhile
import VerifierSession.Proofs.Grammar
import VerifierSession.Proofs.Written

/-!
# Strings and integers in a text

The readers of strings and integers accept only what the grammar has.

* `Quotation.Remains`: the letters that are left of a string, from where its reader stands;
* `Quotation.remains_step`: what is left before one more character, which strict and lenient
  reading share, and `readQuotation_spelled` over a whole string;
* `toDigits_ofDigitChars`: a natural number is written in one way;
* `readNumeral_whole` and `readInteger_digits`: so an integer has the digits it was read from.
-/

namespace VerifierSession
namespace Json

namespace Quotation

/-! ## One character of a string -/

theorem utf8Size_of_hexValue? {c : Char} {n : Nat} (h : hexValue? c = some n) :
    c.utf8Size = 1 := by
  have hascii : c.toNat ≤ 127 := by
    have hle : ∀ {a b : Char}, a ≤ b → a.toNat ≤ b.toNat := fun h => h
    unfold hexValue? at h
    split at h
    · rename_i hdigit
      simp only [isDigit, Bool.and_eq_true, decide_eq_true_eq] at hdigit
      exact Nat.le_trans (hle hdigit.2) (by decide)
    · split at h
      · rename_i hlower
        exact Nat.le_trans (hle hlower.2) (by decide)
      · split at h
        · rename_i hupper
          exact Nat.le_trans (hle hupper.2) (by decide)
        · cases h
  rw [Char.utf8Size_eq_one_iff]
  exact hascii

/-- Where a reader can stand: digits are owed in an escape, and a first half is one. -/
def State.Standing : State → Prop
  | .plain | .escape => True
  | .hex owed _ lead => 0 < owed ∧ ∀ l, lead = some l → isLead l = true
  | .afterLead lead | .afterLeadEscape lead => isLead lead = true

/-- The first half that waits for the second one. -/
def State.waiting : State → List Letter
  | .plain | .escape => []
  | .hex _ _ lead => lead.toList.map .unit
  | .afterLead lead | .afterLeadEscape lead => [.unit lead]

/-- The letters that are left of a string: those of an escape begin where it does. -/
def Remains (state : State) (t : List Char) (letters : List Letter) (r : List Char) : Prop :=
  match state with
  | .plain | .afterLead _ => Spelled t letters r
  | .escape | .afterLeadEscape _ => Spelled ('\\' :: t) letters r
  | .hex owed value _ =>
      ∃ v ds n t' later, value = some v ∧ ds.length = owed ∧ hexFrom? v ds = some n ∧
        t = ds ++ t' ∧ letters = .unit n :: later ∧ Spelled t' later r

/-- The digits of an escape, from its first one on. -/
theorem spelled_of_remains_hex {lead : Option Nat} {t r : List Char} {letters : List Letter}
    (h : Remains (.hex 4 (some 0) lead) t letters r) : Spelled ('\\' :: 'u' :: t) letters r := by
  rcases h with ⟨v, ds, n, t', later, hv, hlength, hvalue, rfl, rfl, hlater⟩
  cases hv
  exact .unit hlength hvalue hlater

/-- An escape whose digits are all there settles a unit, or waits for the other half. -/
theorem settle_inside {strict : Bool} {lead : Option Nat} {n : Nat} {next : State}
    {settled : Option Char} (hlead : ∀ l, lead = some l → isLead l = true)
    (h : settle strict lead n = .ok (.inside next settled)) :
    next.Standing ∧
      (∀ t letters r, Remains next t letters r → Spelled t letters r) ∧
      (strict = true → ∀ letters,
        charsOf? (lead.toList.map .unit ++ .unit n :: letters) =
          (charsOf? (next.waiting ++ letters)).map (settled.toList ++ ·)) := by
  cases strict with
  | false =>
      cases h
      exact ⟨trivial, fun _ _ _ h => h, fun h => absurd h Bool.false_ne_true⟩
  | true =>
      cases lead with
      | none =>
          cases htrail : isTrail n with
          | true => simp [settle, htrail] at h
          | false =>
              cases hfirst : isLead n with
              | true =>
                  simp only [settle, htrail, hfirst] at h
                  cases h
                  exact ⟨hfirst, fun _ _ _ h => h, fun _ letters => by simp [State.waiting]⟩
              | false =>
                  simp only [settle, htrail, hfirst] at h
                  cases h
                  exact ⟨trivial, fun _ _ _ h => h, fun _ => charsOf?_unit htrail hfirst⟩
      | some l =>
          cases htrail : isTrail n with
          | true =>
              simp only [settle, htrail] at h
              cases h
              exact ⟨trivial, fun _ _ _ h => h, fun _ => charsOf?_pair (hlead l rfl) htrail⟩
          | false => simp [settle, htrail] at h

theorem map_none_append (o : Option (List Char)) :
    o = o.map ((none : Option Char).toList ++ ·) := by
  cases o <;> rfl

/--
What is left of a string before one more character, if something is left after it.  In strict
reading the characters are those that the reader settles.
-/
def StepsBack (strict : Bool) (state next : State) (c : Char) (settled : Option Char) : Prop :=
  next.Standing ∧ ∀ t letters r, Remains next t letters r →
    ∃ letters', Remains state (c :: t) letters' r ∧
      (strict = true → charsOf? (state.waiting ++ letters') =
        (charsOf? (next.waiting ++ letters)).map (settled.toList ++ ·))

section Hex

variable {strict : Bool} {p : Place} {owed : Nat} {lead : Option Nat} {next : State} {c : Char}
  {settled : Option Char}

theorem remains_step_missing {value : Option Nat}
    (hmissing : ∀ v digit, value = some v → hexValue? c ≠ some digit)
    (hlead : ∀ l, lead = some l → isLead l = true)
    (h : step strict p (.hex owed value lead) c = .ok (.inside next settled)) :
    StepsBack strict (.hex owed value lead) next c settled := by
  -- By `hmissing` there is no value from here on.
  by_cases hmore : c.utf8Size < owed
  · simp only [step, if_pos hmore] at h
    cases h
    refine ⟨⟨by omega, hlead⟩, ?_⟩
    rintro t letters r ⟨v, ds, n, t', later, hv, -⟩
    cases hv
  · simp [step, hmore] at h

theorem remains_step_digit {v digit : Nat} (hdigit : hexValue? c = some digit) (howed : 0 < owed)
    (hlead : ∀ l, lead = some l → isLead l = true)
    (h : step strict p (.hex owed (some v) lead) c = .ok (.inside next settled)) :
    StepsBack strict (.hex owed (some v) lead) next c settled := by
  have hsize := utf8Size_of_hexValue? hdigit
  by_cases hmore : c.utf8Size < owed
  · simp only [step, hdigit, if_pos hmore] at h
    cases h
    refine ⟨⟨by omega, hlead⟩, ?_⟩
    rintro t letters r ⟨v', ds, n, t', later, hv, hlength, hvalue, rfl, rfl, hlater⟩
    cases hv
    refine ⟨.unit n :: later, ?_, fun _ => map_none_append _⟩
    refine ⟨v, c :: ds, n, t', later, rfl, ?_, ?_, rfl, rfl, hlater⟩
    · rw [List.length_cons, hlength]
      omega
    · simpa [hexFrom?, hdigit] using hvalue
  · -- This digit was the last one.
    cases hsettle : settle strict lead (v * 16 + digit) with
    | error cause => simp [step, hdigit, hmore, hsettle] at h
    | ok move =>
        simp only [step, hdigit, if_neg hmore, hsettle] at h
        cases h
        rcases settle_inside hlead hsettle with ⟨hnext, hrest, hchars⟩
        refine ⟨hnext, fun t letters r ht => ?_⟩
        refine ⟨.unit (v * 16 + digit) :: letters, ?_, fun hstrict => hchars hstrict letters⟩
        refine ⟨v, [c], v * 16 + digit, t, letters, rfl, ?_, ?_, rfl, rfl, hrest _ _ _ ht⟩
        · rw [List.length_singleton]
          omega
        · simp [hexFrom?, hdigit]

end Hex

theorem remains_step {strict : Bool} {p : Place} {state next : State} {c : Char}
    {settled : Option Char} (hstanding : state.Standing)
    (h : step strict p state c = .ok (.inside next settled)) :
    StepsBack strict state next c settled := by
  cases state with
  | plain =>
      by_cases hquote : c = '"'
      · simp [step, hquote] at h
      · by_cases hslash : c = '\\'
        · subst hslash
          cases h
          exact ⟨trivial, fun t letters r ht => ⟨letters, ht, fun _ => map_none_append _⟩⟩
        · by_cases hcontrol : c.toNat < 0x20
          · simp [step, hquote, hslash, hcontrol] at h
          · simp only [step, hquote, hslash, hcontrol] at h
            cases h
            refine ⟨trivial, fun t letters r ht => ⟨.char c :: letters, ?_, ?_⟩⟩
            · exact .plain hquote hslash (Nat.not_lt.1 hcontrol) ht
            · intro _
              rfl
  | escape =>
      by_cases hu : c = 'u'
      · subst hu
        cases h
        exact ⟨⟨by decide, fun l hl => by cases hl⟩,
          fun t letters r ht => ⟨letters, spelled_of_remains_hex ht, fun _ => map_none_append _⟩⟩
      · cases hvalue : escapeValue? c with
        | none => simp [step, hu, hvalue] at h
        | some out =>
            simp only [step, hu, hvalue] at h
            cases h
            refine ⟨trivial, fun t letters r ht => ⟨.char out :: letters, .short hvalue ht, ?_⟩⟩
            intro _
            rfl
  | afterLead lead =>
      by_cases hslash : c = '\\'
      · subst hslash
        cases h
        exact ⟨hstanding, fun t letters r ht => ⟨letters, ht, fun _ => map_none_append _⟩⟩
      · simp [step, hslash] at h
  | afterLeadEscape lead =>
      by_cases hu : c = 'u'
      · subst hu
        cases h
        refine ⟨⟨by decide, fun l hl => ?_⟩,
          fun t letters r ht => ⟨letters, spelled_of_remains_hex ht, fun _ => map_none_append _⟩⟩
        cases hl
        exact hstanding
      · simp [step, hu] at h
  | hex owed value lead =>
      rcases hstanding with ⟨howed, hlead⟩
      cases value with
      | none => exact remains_step_missing (by simp) hlead h
      | some v =>
          cases hdigit : hexValue? c with
          | none => exact remains_step_missing (by simp [hdigit]) hlead h
          | some digit => exact remains_step_digit hdigit howed hlead h

theorem settle_ne_closed (strict : Bool) (lead : Option Nat) (n : Nat) :
    settle strict lead n ≠ .ok .closed := by
  cases strict <;> cases lead <;> grind [settle]

theorem step_closed {strict : Bool} {p : Place} {state : State} {c : Char}
    (h : step strict p state c = .ok .closed) : state = .plain ∧ c = '"' := by
  cases state with
  | plain =>
      by_cases hquote : c = '"'
      · exact ⟨rfl, hquote⟩
      · simp only [step, if_neg hquote] at h
        grind
  | escape =>
      simp only [step] at h
      grind
  | afterLead lead =>
      simp only [step] at h
      grind
  | afterLeadEscape lead =>
      simp only [step] at h
      grind
  | hex owed value lead =>
      simp only [step] at h
      grind [settle_ne_closed]

/-! ## A whole string -/

/-- What is read of a string is spelled up to where it closes. -/
theorem readFrom_remains {state : State} {cs text : List Char} {p : Place} {behind : Cursor}
    (hstanding : state.Standing) (h : readFrom true state cs p = .ok (text, behind)) :
    ∃ letters, Remains state cs letters ('"' :: behind.rest) ∧
      charsOf? (state.waiting ++ letters) = some text := by
  -- The letters are built from the closing mark back: each character adds what it began.
  induction cs generalizing state p text with
  | nil => cases h
  | cons c cs ih =>
      rw [readFrom] at h
      cases hstep : step true p state c with
      | error fault => simp [hstep] at h
      | ok move =>
          cases move with
          | closed =>
              rcases step_closed hstep with ⟨rfl, rfl⟩
              simp only [hstep, Except.ok.injEq, Prod.mk.injEq] at h
              rcases h with ⟨rfl, rfl⟩
              exact ⟨[], .nil _, rfl⟩
          | inside next settled =>
              rcases remains_step hstanding hstep with ⟨hnext, hback⟩
              simp only [hstep] at h
              rcases exists_of_bind_eq_ok h with ⟨⟨later, last⟩, hrest, hdone⟩
              cases hdone
              rcases ih hnext hrest with ⟨letters, hletters, hchars⟩
              rcases hback cs letters _ hletters with ⟨letters', hletters', hchars'⟩
              exact ⟨letters', hletters', by rw [hchars' rfl, hchars, Option.map_some]⟩

end Quotation

/-- What the reader of strings accepts is spelled in the text, and every surrogate is paired. -/
theorem readQuotation_spelled {c behind : Cursor} {s : String}
    (h : readQuotation c = .ok (s, behind)) :
    ∃ letters, Spelled c.rest letters ('"' :: behind.rest) ∧ charsOf? letters = some s.toList := by
  rcases exists_of_bind_eq_ok h with ⟨⟨text, last⟩, hread, hdone⟩
  cases hdone
  have hplain : Quotation.State.plain.Standing := trivial
  rcases Quotation.readFrom_remains hplain hread with ⟨letters, hletters, hchars⟩
  exact ⟨letters, hletters, by simpa [Quotation.State.waiting] using hchars⟩

/-! ## Digits -/

theorem isWhole_toDigits (n : Nat) : IsWhole (Nat.toDigits 10 n) := by
  by_cases hn : n = 0
  · left
    rw [hn, Nat.toDigits_zero]
  · right
    rcases exists_toDigits_eq_cons hn with ⟨d, ds, hdigits, hd⟩
    have hall : ∀ c ∈ d :: ds, isDigit c = true := fun c hc =>
      isDigit_of_mem_toDigits (hdigits ▸ hc)
    exact ⟨d, ds, hdigits, hd, hall d List.mem_cons_self, fun c hc =>
      hall c (List.mem_cons_of_mem _ hc)⟩

theorem isNumber_digits (n : Int) : IsNumber (digits n) := by
  cases n with
  | ofNat n =>
      exact ⟨[], Nat.toDigits 10 n, [], [], by simp [digits_ofNat], .inl rfl, isWhole_toDigits n,
        .inl rfl, .inl rfl⟩
  | negSucc n =>
      exact ⟨['-'], Nat.toDigits 10 (n + 1), [], [], by simp [digits_negSucc], .inr rfl,
        isWhole_toDigits (n + 1), .inl rfl, .inl rfl⟩

theorem digitValue_lt {d : Char} (hd : isDigit d = true) : digitValue d < 10 := by
  simp only [isDigit, Bool.and_eq_true, decide_eq_true_eq] at hd
  have hhigh : d.toNat ≤ '9'.toNat := hd.2
  have hnine : '9'.toNat = 57 := rfl
  have hzero : '0'.toNat = 48 := rfl
  rw [digitValue]
  omega

theorem digitChar_digitValue {d : Char} (hd : isDigit d = true) :
    Nat.digitChar (digitValue d) = d := by
  apply Char.toNat_inj.1
  rw [Nat.toNat_digitChar_of_lt_ten (digitValue_lt hd), digitValue]
  simp only [isDigit, Bool.and_eq_true, decide_eq_true_eq] at hd
  have hlow : '0'.toNat ≤ d.toNat := hd.1
  have hzero : '0'.toNat = 48 := rfl
  omega

/-- Further digits stand behind those of a number that is not zero. -/
theorem toDigits_ofDigitChars_append {ds : List Char} {n : Nat} (hn : 0 < n) (hds : AllDigits ds) :
    Nat.toDigits 10 (Nat.ofDigitChars 10 ds n) = Nat.toDigits 10 n ++ ds := by
  induction ds generalizing n with
  | nil => simp
  | cons d ds ih =>
      have hd : isDigit d = true := hds d List.mem_cons_self
      have hlater := ih (n := 10 * n + digitValue d) (by omega) fun d' hd' =>
        hds d' (List.mem_cons_of_mem _ hd')
      calc
        Nat.toDigits 10 (Nat.ofDigitChars 10 (d :: ds) n)
            = Nat.toDigits 10 (10 * n + digitValue d) ++ ds := by
              rw [Nat.ofDigitChars_cons]
              exact hlater
        _ = (Nat.toDigits 10 n ++ Nat.toDigits 10 (digitValue d)) ++ ds := by
              rw [Nat.toDigits_append_toDigits (by decide) hn (digitValue_lt hd)]
        _ = Nat.toDigits 10 n ++ d :: ds := by
              rw [Nat.toDigits_of_lt_base (digitValue_lt hd), digitChar_digitValue hd,
                List.append_assoc, List.singleton_append]

/-- A number is written in one way, as no zero stands in front. -/
theorem toDigits_ofDigitChars {d : Char} {ds : List Char} (hzero : d ≠ '0')
    (hds : AllDigits (d :: ds)) :
    Nat.toDigits 10 (Nat.ofDigitChars 10 (d :: ds) 0) = d :: ds := by
  have hd : isDigit d = true := hds d List.mem_cons_self
  have hchar := digitChar_digitValue hd
  have hpositive : 0 < digitValue d := by
    apply Nat.pos_of_ne_zero
    intro hvalue
    rw [hvalue] at hchar
    exact hzero hchar.symm
  have hrest := toDigits_ofDigitChars_append hpositive fun d' hd' =>
    hds d' (List.mem_cons_of_mem _ hd')
  rw [Nat.ofDigitChars_cons, Nat.mul_zero, Nat.zero_add]
  rw [Nat.toDigits_of_lt_base (digitValue_lt hd), hchar] at hrest
  exact hrest

theorem Cursor.rest_skipWhile (p : Char → Bool) (cs : List Char) (place : Place) :
    (Cursor.skipWhile p cs place).rest = cs.dropWhile p := by
  induction cs generalizing place with
  | nil => rfl
  | cons c cs ih => by_cases hc : p c = true <;> simp [Cursor.skipWhile, hc, ih]

/-! ## Numbers -/

namespace Numeral

def IsReal : Numeral → Prop
  | real _ _ => True
  | _ => False

section Real

variable {minus : Bool} {significand : Nat} {x : Numeral} {c c' : Cursor}

theorem isReal_scaled {scale : Int} (h : scaled minus significand scale c = .ok (x, c')) :
    x.IsReal := by
  cases hvalue : Decimal.Binary64.ofDecimal significand scale with
  | none => simp [scaled, hvalue] at h
  | some value =>
      simp only [scaled, hvalue] at h
      cases h
      trivial

theorem isReal_readExponent {scale : Int}
    (h : readExponent minus significand scale c = .ok (x, c')) : x.IsReal := by
  simp only [readExponent] at h
  split at h
  · cases h
  · split at h
    · exact isReal_scaled h
    · -- A sign, or none, does not matter once the exponent is too long.
      split at h <;> split at h <;> cases h <;> trivial

theorem isReal_readFraction {scale : Int}
    (h : readFraction minus significand scale c = .ok (x, c')) : x.IsReal := by
  simp only [readFraction, readScale] at h
  split at h
  · cases h
  · split at h
    · exact isReal_readExponent h
    · exact isReal_readExponent h
    · exact isReal_scaled h

theorem readTail_whole {dropped : Nat} (h : readTail minus significand dropped c = .ok (x, c'))
    (hx : ¬ x.IsReal) :
    dropped = 0 ∧ whole minus significand c = .ok (x, c') := by
  simp only [readTail] at h
  split at h
  · exact absurd (isReal_readFraction h) hx
  · exact absurd (isReal_readExponent h) hx
  · exact absurd (isReal_readExponent h) hx
  · by_cases hdropped : dropped = 0
    · rw [if_pos hdropped] at h
      exact ⟨hdropped, h⟩
    · rw [if_neg hdropped] at h
      exact absurd (isReal_scaled h) hx

/-- An integer leaves the cursor where it is: its sign and its size settle what it is. -/
theorem eq_of_whole (h : whole minus significand c = .ok (x, c')) (hx : ¬ x.IsReal) :
    c' = c ∧ (minus = false ∧ x = .natural significand ∨
      minus = true ∧ 0 < significand ∧ significand ≤ Decimal.twoTo 63 ∧
        x = .negative significand) := by
  cases minus with
  | false =>
      cases h
      exact ⟨rfl, .inl ⟨rfl, rfl⟩⟩
  | true =>
      by_cases hbounds : 0 < significand ∧ significand ≤ Decimal.twoTo 63
      · simp only [whole, if_pos hbounds] at h
        cases h
        exact ⟨rfl, .inr ⟨rfl, hbounds.1, hbounds.2, rfl⟩⟩
      · simp only [whole, if_neg hbounds] at h
        exact absurd (isReal_scaled h) hx

end Real

theorem eq_ofDigitChars_of_absorb {cs : List Char} {n significand : Nat}
    (h : absorb n (cs.map digitValue) = (significand, [])) :
    significand = Nat.ofDigitChars 10 cs n := by
  induction cs generalizing n with
  | nil =>
      cases h
      rfl
  | cons d ds ih =>
      rw [List.map_cons, absorb] at h
      by_cases hfits : n * 10 + digitValue d < Decimal.twoTo 64
      · rw [if_pos hfits] at h
        rw [Nat.ofDigitChars_cons, ih h, Nat.mul_comm]
        rfl
      · rw [if_neg hfits] at h
        cases h

end Numeral

/-- The digits of an integer are the ones that it is written with. -/
theorem readNumeral_whole {minus : Bool} {x : Numeral} {c c' : Cursor}
    (h : readNumeral minus c = .ok (x, c')) (hx : ¬ x.IsReal) :
    ∃ n, c.rest = Nat.toDigits 10 n ++ c'.rest ∧ Numeral.whole minus n c' = .ok (x, c') := by
  have hzero : ∀ {tail}, c.rest = '0' :: tail → Numeral.readTail minus 0 0 c.advance = .ok (x, c') →
      ∃ n, c.rest = Nat.toDigits 10 n ++ c'.rest ∧ Numeral.whole minus n c' = .ok (x, c') := by
    intro tail hrest htail
    have hwhole := (Numeral.readTail_whole htail hx).2
    have hc := (Numeral.eq_of_whole hwhole hx).1
    refine ⟨0, ?_, hc ▸ hwhole⟩
    rw [hc, Nat.toDigits_zero, Cursor.advance, hrest]
    rfl
  rw [readNumeral] at h
  split at h
  · cases h
  · rename_i d tail hrest
    by_cases hd : isDigit d = true
    · rw [if_pos hd] at h
      cases h
    · rw [if_neg hd] at h
      exact hzero hrest h
  · rename_i hrest
    exact hzero hrest h
  · rename_i d tail hmore hone hrest
    by_cases hd : isDigit d = true
    · rw [if_pos hd] at h
      cases habsorb : Numeral.absorb 0 ((c.rest.takeWhile isDigit).map digitValue) with
      | mk significand left =>
          simp only [Cursor.takeDigits, habsorb] at h
          rcases Numeral.readTail_whole h hx with ⟨hleft, hwhole⟩
          have hc := (Numeral.eq_of_whole hwhole hx).1
          rw [List.length_eq_zero_iff.1 hleft] at habsorb
          have hvalue := Numeral.eq_ofDigitChars_of_absorb habsorb
          have hfirst : d ≠ '0' := by
            rintro rfl
            cases tail with
            | nil => exact hone rfl rfl
            | cons e tail => exact hmore e tail rfl rfl
          refine ⟨significand, ?_, hc ▸ hwhole⟩
          have htake : c.rest.takeWhile isDigit = d :: tail.takeWhile isDigit := by
            rw [hrest, List.takeWhile_cons_of_pos hd]
          have hall : AllDigits (d :: tail.takeWhile isDigit) := fun e he =>
            List.mem_takeWhile_imp (htake ▸ he)
          rw [hc, Cursor.rest_skipWhile, hvalue, htake, toDigits_ofDigitChars hfirst hall, ← htake,
            List.takeWhile_append_dropWhile]
    · rw [if_neg hd] at h
      cases h

/-- A number with its sign is an integer of 64 bits, in the one way of writing it. -/
theorem integerOf_digits {minus : Bool} {c behind c' : Cursor} {x : Numeral} {v : Value}
    (hread : readNumeral minus c = .ok (x, behind)) (h : integerOf x behind = .ok (v, c')) :
    ∃ n, (if minus then ['-'] else []) ++ c.rest = digits n ++ c'.rest ∧ v = .integer n ∧
      -(Decimal.twoTo 63 : Int) ≤ n ∧ n < (Decimal.twoTo 63 : Int) := by
  have hreal : ¬ x.IsReal := by
    cases x with
    | real _ _ => cases h
    | natural _ => exact id
    | negative _ => exact id
  rcases readNumeral_whole hread hreal with ⟨n, htext, hwhole⟩
  -- The sign decides which of the two kinds of integer it is.
  rcases (Numeral.eq_of_whole hwhole hreal).2 with ⟨rfl, rfl⟩ | ⟨rfl, hpositive, hbound, rfl⟩
  · by_cases hn : n < Decimal.twoTo 63
    · rw [integerOf, if_pos hn] at h
      cases h
      refine ⟨n, ?_, rfl, by omega, by omega⟩
      rw [htext, digits_ofNat]
      rfl
    · rw [integerOf, if_neg hn] at h
      cases h
  · cases h
    rcases Nat.exists_eq_add_of_lt hpositive with ⟨m, rfl⟩
    rw [Nat.zero_add] at htext hbound ⊢
    refine ⟨Int.negSucc m, ?_, rfl, by omega, by omega⟩
    rw [htext, digits_negSucc]
    rfl

/-- What the reader of integers accepts is an integer of 64 bits, in the one way of writing it. -/
theorem readInteger_digits {c c' : Cursor} {v : Value} (h : readInteger c = .ok (v, c')) :
    ∃ t n, Blank c.rest t ∧ t = digits n ++ c'.rest ∧ v = .integer n ∧
      -(Decimal.twoTo 63 : Int) ≤ n ∧ n < (Decimal.twoTo 63 : Int) := by
  -- Both signs end in the same two readers.
  have hsigned : ∀ minus (start : Cursor),
      c.skipBlank.rest = (if minus then ['-'] else []) ++ start.rest →
      (readNumeral minus start >>= fun r => integerOf r.1 r.2) = .ok (v, c') →
      ∃ t n, Blank c.rest t ∧ t = digits n ++ c'.rest ∧ v = .integer n ∧
        -(Decimal.twoTo 63 : Int) ≤ n ∧ n < (Decimal.twoTo 63 : Int) := by
    intro minus start hstart hnumber
    rcases exists_of_bind_eq_ok hnumber with ⟨⟨x, behind⟩, hread, hvalue⟩
    rcases integerOf_digits hread hvalue with ⟨n, htext, hv, hlow, hhigh⟩
    exact ⟨c.skipBlank.rest, n, blank_skipBlank c, hstart.trans htext, hv, hlow, hhigh⟩
  simp only [readInteger] at h
  split at h
  · cases h
  · rename_i tail hrest
    refine hsigned true c.skipBlank.advance ?_ h
    simp [Cursor.advance, hrest]
  · rename_i ch tail hminus hrest
    by_cases hdigit : isDigit ch = true
    · rw [if_pos hdigit] at h
      exact hsigned false c.skipBlank rfl h
    · rw [if_neg hdigit] at h
      cases h

end Json
end VerifierSession
