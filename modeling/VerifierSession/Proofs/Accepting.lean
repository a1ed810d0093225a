import VerifierSession.Proofs.Skimming
import VerifierSession.Proofs.Unambiguity

/-!
# What the grammar has is accepted

The other direction: strings and values of the grammar are read to their end.

* `Quotation.step_of_remains`: the reader of strings takes the next character of what is left of a
  string, in lenient reading always and in strict reading if every surrogate is paired;
* `readQuotation_of_spelled`: so a whole string is read;
* `Skim.extend?_of_numberRest`, `Skim.passes_of_derives`: the machine passes over a number as over
  any value, and goes on with what encloses it;
* `skimValue_of_derives`: a whole value.
-/

namespace VerifierSession
namespace Json

/-! ## Strings -/

namespace Quotation

/-- What a unit stands for: a character, or one together with the unit behind it. -/
theorem of_charsOf?_unit {n : Nat} {letters : List Letter} {text : List Char}
    (h : charsOf? (.unit n :: letters) = some text) :
    isTrail n = false ∧
      ((isLead n = false ∧ ∃ text', charsOf? letters = some text' ∧
          text = Char.ofNat n :: text') ∨
        (isLead n = true ∧ ∃ m later text', letters = .unit m :: later ∧ isTrail m = true ∧
          charsOf? later = some text' ∧ text = pairValue n m :: text')) := by
  cases htrail : isTrail n with
  | true => rcases letters with _ | ⟨_ | _, _⟩ <;> simp [charsOf?, htrail] at h
  | false =>
      refine ⟨rfl, ?_⟩
      cases hlead : isLead n with
      | false =>
          rw [charsOf?_unit htrail hlead] at h
          rcases Option.map_eq_some_iff.1 h with ⟨text', hlater, rfl⟩
          exact .inl ⟨rfl, text', hlater, rfl⟩
      | true =>
          refine .inr ⟨rfl, ?_⟩
          rcases letters with _ | ⟨c | m, later⟩
          · simp [charsOf?, htrail, hlead] at h
          · simp [charsOf?, htrail, hlead] at h
          · cases hsecond : isTrail m with
            | false => simp [charsOf?, htrail, hlead, hsecond] at h
            | true =>
                rw [charsOf?_pair hlead hsecond] at h
                rcases Option.map_eq_some_iff.1 h with ⟨text', hlater, rfl⟩
                exact ⟨m, later, text', rfl, hsecond, hlater, rfl⟩

/-- In strict reading the letters stand for characters; in lenient reading none of them waits. -/
def Readable (strict : Bool) (state : State) (letters : List Letter) (text : List Char) : Prop :=
  if strict then charsOf? (state.waiting ++ letters) = some text else state.waiting = []

theorem Readable.char {strict : Bool} {c : Char} {letters : List Letter} {text : List Char}
    (h : Readable strict .plain (.char c :: letters) text) :
    ∃ text', Readable strict .plain letters text' ∧ (strict = true → text = [c] ++ text') := by
  cases strict with
  | false => exact ⟨[], rfl, fun h => by cases h⟩
  | true =>
      rcases Option.map_eq_some_iff.1 h with ⟨text', hlater, rfl⟩
      exact ⟨text', hlater, fun _ => rfl⟩

/-- Behind a first half there is a second one, and only strict reading waits for it. -/
theorem Readable.unit_of_lead {strict : Bool} {state : State} {lead : Nat} {letters : List Letter}
    {text : List Char} (hwaiting : state.waiting = [.unit lead]) (hlead : isLead lead = true)
    (h : Readable strict state letters text) :
    strict = true ∧ ∃ m later, letters = .unit m :: later := by
  cases strict with
  | false =>
      rw [Readable, hwaiting] at h
      cases h
  | true =>
      simp only [Readable, if_true, hwaiting] at h
      rcases of_charsOf?_unit h with ⟨-, ⟨hnot, -⟩ | ⟨-, m, later, -, rfl, -⟩⟩
      · simp [hlead] at hnot
      · exact ⟨rfl, m, later, rfl⟩

theorem hexValue?_of_hexFrom? {v n : Nat} {d : Char} {ds : List Char}
    (h : hexFrom? v (d :: ds) = some n) :
    ∃ digit, hexValue? d = some digit ∧ hexFrom? (v * 16 + digit) ds = some n := by
  rw [hexFrom?] at h
  exact Option.bind_eq_some_iff.1 h

/-- A unit behind the digits of an escape settles, if it may stand there. -/
theorem settle_of_readable {strict : Bool} {owed : Nat} {value lead : Option Nat} {n : Nat}
    {letters : List Letter} {text : List Char}
    (hstanding : ∀ l, lead = some l → isLead l = true)
    (h : Readable strict (.hex owed value lead) (.unit n :: letters) text) :
    ∃ next settled text', settle strict lead n = .ok (.inside next settled) ∧ next.Standing ∧
      (∀ t r, Spelled t letters r → Remains next t letters r) ∧
      Readable strict next letters text' ∧ (strict = true → text = settled.toList ++ text') := by
  cases strict with
  | false =>
      exact ⟨.plain, none, [], rfl, trivial, fun _ _ h => h, rfl, fun h => by cases h⟩
  | true =>
      simp only [Readable, if_true] at h
      cases lead with
      | none =>
          rcases of_charsOf?_unit h with ⟨htrail, ⟨hlead, text', hlater, rfl⟩ | ⟨hlead, -⟩⟩
          · exact ⟨.plain, some (Char.ofNat n), text', by simp [settle, htrail, hlead], trivial,
              fun _ _ h => h, hlater, fun _ => rfl⟩
          · exact ⟨.afterLead n, none, text, by simp [settle, htrail, hlead], hlead,
              fun _ _ h => h, h, fun _ => rfl⟩
      | some l =>
          have hl := hstanding l rfl
          rcases of_charsOf?_unit h with ⟨-, ⟨hnot, -⟩ | ⟨-, m, later, text', heq, htrail, hlater, rfl⟩⟩
          · simp [hl] at hnot
          · cases heq
            exact ⟨.plain, some (pairValue l n), text', by simp [settle, htrail], trivial,
              fun _ _ h => h, hlater, fun _ => rfl⟩

/--
One more character of a string, which leads on to what is left.  In strict reading the characters
that are settled are those that the letters stand for.
-/
def StepsOn (strict : Bool) (state : State) (t r : List Char) (text : List Char) : Prop :=
  ∃ c t' next settled letters' text', t = c :: t' ∧
    (∀ p, step strict p state c = .ok (.inside next settled)) ∧ next.Standing ∧
    Remains next t' letters' r ∧ Readable strict next letters' text' ∧
    (strict = true → text = settled.toList ++ text')

section Step

variable {strict : Bool} {t r text : List Char} {letters : List Letter}

/-- The character after a backslash settles, or begins the digits of a unit. -/
theorem stepsOn_escape (h : Spelled ('\\' :: t) letters ('"' :: r))
    (hreadable : Readable strict .escape letters text) :
    StepsOn strict .escape t ('"' :: r) text := by
  rcases h.of_slash rfl with ⟨letter, c, t', later, rfl, hvalue, rfl, hlater⟩ |
    ⟨ds, n, t', later, rfl, hlength, hvalue, rfl, hlater⟩
  · have hletter : letter ≠ 'u' := by
      rintro rfl
      cases hvalue
    rcases Readable.char hreadable with ⟨text', hreadable, htext⟩
    exact ⟨letter, t', .plain, some c, later, text', rfl,
      fun p => by simp [step, hletter, hvalue], trivial, hlater, hreadable, htext⟩
  · exact ⟨'u', ds ++ t', .hex 4 (some 0) none, none, .unit n :: later, text, rfl, fun p => rfl,
      ⟨by decide, fun l hl => by cases hl⟩,
      ⟨0, ds, n, t', later, rfl, hlength, hvalue, rfl, rfl, hlater⟩, hreadable, fun _ => rfl⟩

theorem stepsOn_afterLead {lead : Nat} (hlead : isLead lead = true)
    (h : Spelled t letters ('"' :: r)) (hreadable : Readable strict (.afterLead lead) letters text) :
    StepsOn strict (.afterLead lead) t ('"' :: r) text := by
  rcases Readable.unit_of_lead rfl hlead hreadable with ⟨rfl, m, later, rfl⟩
  have hslash := h
  cases hslash with
  | @unit ds t' _ _ _ hlength hvalue hlater =>
      exact ⟨'\\', 'u' :: (ds ++ t'), .afterLeadEscape lead, none, .unit m :: later, text, rfl,
        fun p => rfl, hlead, h, hreadable, fun _ => rfl⟩

theorem stepsOn_afterLeadEscape {lead : Nat} (hlead : isLead lead = true)
    (h : Spelled ('\\' :: t) letters ('"' :: r))
    (hreadable : Readable strict (.afterLeadEscape lead) letters text) :
    StepsOn strict (.afterLeadEscape lead) t ('"' :: r) text := by
  rcases Readable.unit_of_lead rfl hlead hreadable with ⟨rfl, m, later, rfl⟩
  rcases h.of_slash rfl with ⟨letter, c, t', later', -, -, hletters, -⟩ |
    ⟨ds, n, t', later', rfl, hlength, hvalue, hletters, hlater⟩
  · cases hletters
  · cases hletters
    exact ⟨'u', ds ++ t', .hex 4 (some 0) (some lead), none, .unit m :: later, text, rfl,
      fun p => rfl, ⟨by decide, fun l hl => by cases hl; exact hlead⟩,
      ⟨0, ds, m, t', later, rfl, hlength, hvalue, rfl, rfl, hlater⟩, hreadable, fun _ => rfl⟩

theorem stepsOn_hex {owed : Nat} {value lead : Option Nat} (howed : 0 < owed)
    (hlead : ∀ l, lead = some l → isLead l = true)
    (h : Remains (.hex owed value lead) t letters ('"' :: r))
    (hreadable : Readable strict (.hex owed value lead) letters text) :
    StepsOn strict (.hex owed value lead) t ('"' :: r) text := by
  rcases h with ⟨v, ds, n, t', later, rfl, rfl, hvalue, rfl, rfl, hlater⟩
  cases ds with
  | nil => cases howed
  | cons d ds =>
      rcases hexValue?_of_hexFrom? hvalue with ⟨digit, hdigit, hvalue⟩
      have hsize := utf8Size_of_hexValue? hdigit
      cases ds with
      | nil =>
          cases hvalue
          rcases settle_of_readable hlead hreadable with
            ⟨next, settled, text', hsettle, hnext, hrest, hreadable, htext⟩
          exact ⟨d, t', next, settled, later, text', rfl,
            fun p => by simp [step, hdigit, hsize, hsettle], hnext, hrest t' _ hlater, hreadable,
            htext⟩
      | cons d' ds =>
          refine ⟨d, d' :: ds ++ t', .hex (d' :: ds).length (some (v * 16 + digit)) lead, none,
            .unit n :: later, text, rfl, fun p => ?_, ⟨by simp, hlead⟩,
            ⟨_, d' :: ds, n, t', later, rfl, rfl, hvalue, rfl, rfl, hlater⟩, hreadable,
            fun _ => rfl⟩
          simp [step, hdigit, hsize]

/-- What comes next of what is left of a string: its quotation mark, or one more character. -/
theorem step_of_remains {state : State} (hstanding : state.Standing)
    (h : Remains state t letters ('"' :: r)) (hreadable : Readable strict state letters text) :
    (state = .plain ∧ t = '"' :: r ∧ letters = []) ∨ StepsOn strict state t ('"' :: r) text := by
  cases state with
  | plain =>
      have hrest := h
      cases hrest with
      | nil => exact .inl ⟨rfl, rfl, rfl⟩
      | @plain c t' _ letters' hquote hslash hcontrol hlater =>
          rcases Readable.char hreadable with ⟨text', hreadable, htext⟩
          have hvisible : ¬ c.toNat < 0x20 := Nat.not_lt.2 hcontrol
          exact .inr ⟨c, t', .plain, some c, letters', text', rfl,
            fun p => by simp [step, hquote, hslash, hvisible], trivial, hlater, hreadable, htext⟩
      | short hvalue hlater =>
          exact .inr ⟨'\\', _, .escape, none, _, text, rfl, fun p => rfl, trivial, h, hreadable,
            fun _ => rfl⟩
      | unit hlength hvalue hlater =>
          exact .inr ⟨'\\', _, .escape, none, _, text, rfl, fun p => rfl, trivial, h, hreadable,
            fun _ => rfl⟩
  | escape => exact .inr (stepsOn_escape h hreadable)
  | afterLead lead => exact .inr (stepsOn_afterLead hstanding h hreadable)
  | afterLeadEscape lead => exact .inr (stepsOn_afterLeadEscape hstanding h hreadable)
  | hex owed value lead => exact .inr (stepsOn_hex hstanding.1 hstanding.2 h hreadable)

end Step

/-- What is left of a string is read up to where it closes. -/
theorem readFrom_of_remains {state : State} {t r text : List Char} {letters : List Letter}
    (hstanding : state.Standing) (h : Remains state t letters ('"' :: r))
    (hreadable : Readable true state letters text) (p : Place) :
    ∃ p', readFrom true state t p = .ok (text, ⟨r, p'⟩) := by
  induction t generalizing state letters text p with
  | nil =>
      rcases step_of_remains hstanding h hreadable with ⟨-, hnil, -⟩ |
        ⟨c, t', next, settled, letters', text', hcons, -⟩
      · cases hnil
      · cases hcons
  | cons c t ih =>
      rcases step_of_remains hstanding h hreadable with ⟨rfl, hclose, rfl⟩ |
        ⟨c', t', next, settled, letters', text', hcons, hstep, hnext, hrest, hreadable, htext⟩
      · cases hclose
        cases hreadable
        exact ⟨p.past '"', rfl⟩
      · cases hcons
        rcases ih hnext hrest hreadable (p.past c) with ⟨p', hlater⟩
        refine ⟨p', ?_⟩
        simp [readFrom, hstep p, hlater, htext rfl, bind, Except.bind, pure, Except.pure]

end Quotation

/-- A string whose surrogates are all paired is read. -/
theorem readQuotation_of_spelled {t r : List Char} {letters : List Letter} {s : String}
    (h : Spelled t letters ('"' :: r)) (hchars : charsOf? letters = some s.toList)
    (place : Place) : ∃ place', readQuotation ⟨t, place⟩ = .ok (s, ⟨r, place'⟩) := by
  have hplain : Quotation.State.plain.Standing := trivial
  rcases Quotation.readFrom_of_remains hplain h hchars place with ⟨place', hread⟩
  refine ⟨place', ?_⟩
  simp [readQuotation, hread, bind, Except.bind, pure, Except.pure]

/-! ## Numbers that are passed over -/

namespace Skim

theorem of_isExponent_cons {w : List Char} {c : Char} (h : IsExponent (c :: w)) :
    (c = 'e' ∨ c = 'E') ∧ NumberRest .mark w := by
  rcases h with hnil | ⟨mark, sign, ds, heq, hmark, hsign, hne, hds⟩
  · cases hnil
  · cases heq
    exact ⟨hmark, sign, ds, rfl, hsign, hne, hds⟩

/-- What may stand behind the digits before the point. -/
theorem of_fraction_append {fraction exponent w : List Char} {c : Char}
    (hfraction : IsFraction fraction) (hexponent : IsExponent exponent)
    (h : fraction ++ exponent = c :: w) :
    (c = '.' ∧ NumberRest .point w) ∨ ((c = 'e' ∨ c = 'E') ∧ NumberRest .mark w) := by
  rcases hfraction with rfl | ⟨ds, rfl, hne, hds⟩
  · rw [List.nil_append] at h
    exact .inr (of_isExponent_cons (h ▸ hexponent))
  · cases h
    exact .inl ⟨rfl, ds, exponent, rfl, hne, hds, hexponent⟩

theorem not_isDigit_of_mark {c : Char} (h : c = 'e' ∨ c = 'E') : isDigit c = false ∧ c ≠ '.' := by
  rcases h with rfl | rfl <;> decide

/-- The parts of a number can be told apart by one character. -/
theorem extend?_of_numberRest {part : Digits} {c : Char} {w : List Char}
    (h : NumberRest part (c :: w)) :
    ∃ next, part.extend? c = some next ∧ NumberRest next w := by
  cases part with
  | minus =>
      rcases h with ⟨whole, fraction, exponent, hw, hwhole, hfraction, hexponent⟩
      rcases hwhole with rfl | ⟨d, ds, rfl, hzero, hd, hds⟩
      · cases hw
        exact ⟨.zero, by decide, fraction, exponent, rfl, hfraction, hexponent⟩
      · cases hw
        exact ⟨.whole, by simp [Digits.extend?, hzero, hd], ds, fraction, exponent, rfl, hds,
          hfraction, hexponent⟩
  | zero =>
      rcases h with ⟨fraction, exponent, hw, hfraction, hexponent⟩
      rcases of_fraction_append hfraction hexponent hw.symm with ⟨rfl, hrest⟩ | ⟨hmark, hrest⟩
      · exact ⟨.point, by decide, hrest⟩
      · exact ⟨.mark, by simp [Digits.extend?, hmark, not_isDigit_of_mark hmark], hrest⟩
  | whole =>
      rcases h with ⟨ds, fraction, exponent, hw, hds, hfraction, hexponent⟩
      cases ds with
      | nil =>
          rcases of_fraction_append hfraction hexponent hw.symm with ⟨rfl, hrest⟩ | ⟨hmark, hrest⟩
          · exact ⟨.point, by decide, hrest⟩
          · exact ⟨.mark, by simp [Digits.extend?, hmark, not_isDigit_of_mark hmark], hrest⟩
      | cons d ds =>
          cases hw
          exact ⟨.whole, by simp [Digits.extend?, hds c List.mem_cons_self], ds, fraction, exponent,
            rfl, fun e he => hds e (List.mem_cons_of_mem _ he), hfraction, hexponent⟩
  | point =>
      rcases h with ⟨ds, exponent, hw, hne, hds, hexponent⟩
      cases ds with
      | nil => exact absurd rfl hne
      | cons d ds =>
          cases hw
          exact ⟨.fraction, by simp [Digits.extend?, hds c List.mem_cons_self], ds, exponent, rfl,
            fun e he => hds e (List.mem_cons_of_mem _ he), hexponent⟩
  | fraction =>
      rcases h with ⟨ds, exponent, hw, hds, hexponent⟩
      cases ds with
      | nil =>
          rw [List.nil_append] at hw
          rcases of_isExponent_cons (hw ▸ hexponent) with ⟨hmark, hrest⟩
          exact ⟨.mark, by simp [Digits.extend?, hmark, not_isDigit_of_mark hmark], hrest⟩
      | cons d ds =>
          cases hw
          exact ⟨.fraction, by simp [Digits.extend?, hds c List.mem_cons_self], ds, exponent, rfl,
            fun e he => hds e (List.mem_cons_of_mem _ he), hexponent⟩
  | mark =>
      rcases h with ⟨sign, ds, hw, hsign, hne, hds⟩
      rcases hsign with rfl | rfl | rfl
      · cases hw
        exact ⟨.power, by simp [Digits.extend?, hds c List.mem_cons_self],
          fun e he => hds e (List.mem_cons_of_mem _ he)⟩
      · cases hw
        exact ⟨.sign, by decide, hne, hds⟩
      · cases hw
        exact ⟨.sign, by decide, hne, hds⟩
  | sign =>
      exact ⟨.power, by simp [Digits.extend?, h.2 c List.mem_cons_self],
        fun e he => h.2 e (List.mem_cons_of_mem _ he)⟩
  | power =>
      exact ⟨.power, by simp [Digits.extend?, h c List.mem_cons_self],
        fun e he => h e (List.mem_cons_of_mem _ he)⟩

theorem isWhole_of_numberRest_nil {part : Digits} (h : NumberRest part []) :
    part.isWhole = true := by
  cases part with
  | zero => rfl
  | whole => rfl
  | fraction => rfl
  | power => rfl
  | minus =>
      rcases h with ⟨whole, fraction, exponent, hw, rfl | ⟨d, ds, rfl, -⟩, -⟩ <;> cases hw
  | point =>
      rcases h with ⟨ds, exponent, hw, hne, -⟩
      exact absurd (List.append_eq_nil_iff.1 hw.symm).1 hne
  | mark =>
      rcases h with ⟨sign, ds, hw, -, hne, -⟩
      exact absurd (List.append_eq_nil_iff.1 hw.symm).2 hne
  | sign => exact absurd rfl h.1

theorem isNumeric_of_extend? {part next : Digits} {c : Char} (h : part.extend? c = some next) :
    isNumeric c = true := by
  have hzero : isDigit '0' = true := by decide
  cases part <;> simp only [Digits.extend?] at h <;> grind [isNumeric]

/-! ## Values that are passed over -/

def resume (stack : List Frame) (t : List Char) (p : Place) : Except Fault Cursor :=
  match stack with
  | [] => .ok ⟨t, p⟩
  | frame :: _ => run (.more frame) stack t p

section Run

variable {awaiting next : Awaiting} {stack stack' : List Frame} {c : Char} {p : Place}

theorem run_cons_of_on (h : step awaiting stack p c = .ok (.on next stack')) (t : List Char) :
    run awaiting stack (c :: t) p = run next stack' t (p.past c) := by
  rw [run, h]

theorem run_cons_of_close (h : step awaiting stack p c = .ok (close stack')) (t : List Char) :
    run awaiting stack (c :: t) p = resume stack' t (p.past c) := by
  rw [run, h]
  cases stack' <;> rfl

/-- States that step alike run alike. -/
theorem run_cons_congr (h : step awaiting stack p c = step next stack p c) (t : List Char) :
    run awaiting stack (c :: t) p = run next stack (c :: t) p := by
  rw [run, run, h]

end Run

theorem run_number {part : Digits} {w r : List Char} (h : NumberRest part w) (hr : Ends r)
    (stack : List Frame) (p : Place) :
    ∃ p', run (.number part) stack (w ++ r) p = resume stack r p' := by
  induction w generalizing part p with
  | nil =>
      have hwhole := isWhole_of_numberRest_nil h
      refine ⟨p, ?_⟩
      cases r with
      | nil => cases stack <;> simp [run, finish, hwhole, resume]
      | cons c r =>
          have hnumeric := isNumeric_of_ends hr
          have hextend : part.extend? c = none := by
            cases hextend : part.extend? c with
            | none => rfl
            | some next => simp [isNumeric_of_extend? hextend] at hnumeric
          have hdigit : isDigit c = false := hr.not_isDigit
          cases stack with
          | nil => simp [run, step, hextend, hwhole, hdigit, resume]
          | cons frame stack =>
              -- The character that ends the number is one for what encloses it.
              apply run_cons_congr
              simp [step, hextend, hwhole, hdigit]
  | cons c w ih =>
      rcases extend?_of_numberRest h with ⟨next, hextend, hrest⟩
      rcases ih hrest (p.past c) with ⟨p', hlater⟩
      have hstep : step (.number part) stack p c = .ok (.on (.number next) stack) := by
        simp [step, hextend]
      refine ⟨p', ?_⟩
      rw [List.cons_append, run_cons_of_on hstep, hlater]

/-- A string is passed over to where it closes. -/
theorem run_text {isKey : Bool} {state : Quotation.State} {t r text : List Char}
    {letters : List Letter} (hstanding : state.Standing)
    (h : Quotation.Remains state t letters ('"' :: r))
    (hreadable : Quotation.Readable false state letters text) (stack : List Frame) (p : Place) :
    ∃ p', run (.text isKey state) stack t p =
      if isKey then run .colon stack r p' else resume stack r p' := by
  induction t generalizing state letters text p with
  | nil =>
      rcases Quotation.step_of_remains hstanding h hreadable with ⟨-, hnil, -⟩ |
        ⟨c, t', next, settled, letters', text', hcons, -⟩
      · cases hnil
      · cases hcons
  | cons c t ih =>
      rcases Quotation.step_of_remains hstanding h hreadable with ⟨rfl, hclose, rfl⟩ |
        ⟨c', t', next, settled, letters', text', hcons, hstep, hnext, hrest, hreadable, -⟩
      · cases hclose
        refine ⟨p.past '"', ?_⟩
        cases isKey with
        | true => exact run_cons_of_on (by rfl) _
        | false => exact run_cons_of_close (by rfl) _
      · cases hcons
        rcases ih hnext hrest hreadable (p.past c) with ⟨p', hlater⟩
        have hmove : step (.text isKey state) stack p c = .ok (.on (.text isKey next) stack) := by
          simp [step, hstep p]
        exact ⟨p', by rw [run_cons_of_on hmove, hlater]⟩

/-- States in which white space is passed over. -/
def Awaiting.Skips : Awaiting → Prop
  | .value | .first _ | .key | .colon | .more _ => True
  | .word _ | .number _ | .text _ _ => False

theorem step_blank {awaiting : Awaiting} (hskips : awaiting.Skips) {c : Char}
    (hc : isJsonBlank c = true) (stack : List Frame) (p : Place) :
    step awaiting stack p c = .ok (.on awaiting stack) := by
  have hclose : ∀ frame : Frame, frame.closedBy c = false := by
    intro frame
    cases hclosed : frame.closedBy c with
    | false => rfl
    | true =>
        have hmark := Frame.eq_closing hclosed
        cases frame <;> simp [hmark, Frame.closing, isJsonBlank] at hc
  have hcomma : c ≠ ',' := by
    rintro rfl
    cases hc
  cases awaiting with
  | value => simp [step, hc]
  | first frame => simp [step, hc, hclose]
  | key => simp [step, hc]
  | colon => simp [step, hc]
  | more frame => simp [step, afterValue, hc, hclose, hcomma]
  | word rest => cases hskips
  | number part => cases hskips
  | text isKey state => cases hskips

theorem run_blank (awaiting : Awaiting) (hskips : awaiting.Skips) {t t' : List Char}
    (h : Blank t t') (stack : List Frame) (p : Place) :
    ∃ p', run awaiting stack t p = run awaiting stack t' p' := by
  induction h generalizing p with
  | nil => exact ⟨p, rfl⟩
  | cons hc _ ih =>
      rcases ih (p.past _) with ⟨p', hlater⟩
      exact ⟨p', by rw [run_cons_of_on (step_blank hskips hc stack p), hlater]⟩

/-- The machine passes over a part of a text, if something ends it. -/
def Passes (part : Part) (t r : List Char) : Prop :=
  match part with
  | .value _ => Ends r → ∀ stack p, ∃ p', run .value stack t p = resume stack r p'
  | .moreItems _ => ∀ stack p, ∃ p', run (.more .list) (.list :: stack) t p = resume stack r p'
  | .member _ => Ends r → ∀ stack p, ∃ p',
      run .key (.object :: stack) t p = run (.more .object) (.object :: stack) r p'
  | .moreMembers _ => ∀ stack p, ∃ p',
      run (.more .object) (.object :: stack) t p = resume stack r p'

/-- A value starts behind an opening bracket as anywhere else. -/
theorem run_first_value {v : Tree} {t r : List Char} (h : Derives (.value v) t r)
    (stack : List Frame) (p : Place) : run (.first .list) stack t p = run .value stack t p := by
  rcases h.exists_startsWith with ⟨c, t, rfl, hc⟩
  apply run_cons_congr
  have hclose : Frame.list.closedBy c = false := by
    cases hclosed : Frame.list.closedBy c with
    | false => rfl
    | true => exact absurd (.inr (.inr (.inl (Frame.eq_closing hclosed)))) hc.not_ends
  simp [step, hclose, hc.not_blank]

/-- A name starts behind an opening bracket as anywhere else. -/
theorem run_first_member {m : List Letter × Tree} {t r : List Char} (h : Derives (.member m) t r)
    (stack : List Frame) (p : Place) : run (.first .object) stack t p = run .key stack t p := by
  rcases exists_quote_of_member h with ⟨t, rfl⟩
  exact run_cons_congr (by rfl) t

theorem run_word (c : Char) (cs r : List Char) (stack : List Frame) (p : Place) :
    ∃ p', run (.word (c :: cs)) stack (c :: (cs ++ r)) p = resume stack r p' := by
  induction cs generalizing c p with
  | nil =>
      have hstep : step (.word [c]) stack p c = .ok (close stack) := by simp [step]
      exact ⟨p.past c, run_cons_of_close hstep r⟩
  | cons d cs ih =>
      rcases ih d (p.past c) with ⟨p', hlater⟩
      have hstep : step (.word (c :: d :: cs)) stack p c = .ok (.on (.word (d :: cs)) stack) := by
        simp [step]
      exact ⟨p', (run_cons_of_on hstep _).trans hlater⟩

theorem startValue_digit {d : Char} (hd : isDigit d = true) (hzero : d ≠ '0')
    (stack : List Frame) (p : Place) :
    startValue stack p d = .ok (.on (.number .whole) stack) := by
  rw [startValue.eq_def]
  split
  · cases hd
  · cases hd
  · cases hd
  · cases hd
  · cases hd
  · cases hd
  · cases hd
  · exact absurd rfl hzero
  · rw [if_pos hd]

theorem passes_number {w r : List Char} (hw : IsNumber w) (hr : Ends r) (stack : List Frame)
    (p : Place) : ∃ p', run .value stack (w ++ r) p = resume stack r p' := by
  rcases hw with ⟨sign, whole, fraction, exponent, rfl, rfl | rfl, hwhole, hfraction, hexponent⟩
  · rcases hwhole with rfl | ⟨d, ds, rfl, hzero, hd, hds⟩
    · have hrest : NumberRest .zero (fraction ++ exponent) :=
        ⟨fraction, exponent, rfl, hfraction, hexponent⟩
      rcases run_number hrest hr stack (p.past '0') with ⟨p', hlater⟩
      exact ⟨p', (run_cons_of_on (by rfl) _).trans hlater⟩
    · have hrest : NumberRest .whole (ds ++ (fraction ++ exponent)) :=
        ⟨ds, fraction, exponent, rfl, hds, hfraction, hexponent⟩
      rcases run_number hrest hr stack (p.past d) with ⟨p', hlater⟩
      have hstep : step .value stack p d = .ok (.on (.number .whole) stack) := by
        simp [step, (ne_of_isDigit hd).1, startValue_digit hd hzero]
      exact ⟨p', (run_cons_of_on hstep _).trans hlater⟩
  · have hrest : NumberRest .minus (whole ++ (fraction ++ exponent)) :=
      ⟨whole, fraction, exponent, rfl, hwhole, hfraction, hexponent⟩
    rcases run_number hrest hr stack (p.past '-') with ⟨p', hlater⟩
    exact ⟨p', (run_cons_of_on (by rfl) _).trans hlater⟩

theorem passes_of_derives {part : Part} {t r : List Char} (h : Derives part t r) :
    Passes part t r := by
  -- What follows an item or a member says that something ends it, so only whole values ask for it.
  induction h with
  | null r =>
      intro _ stack p
      rcases run_word 'u' ['l', 'l'] r stack (p.past 'n') with ⟨p', hlater⟩
      exact ⟨p', (run_cons_of_on (by rfl) _).trans hlater⟩
  | true r =>
      intro _ stack p
      rcases run_word 'r' ['u', 'e'] r stack (p.past 't') with ⟨p', hlater⟩
      exact ⟨p', (run_cons_of_on (by rfl) _).trans hlater⟩
  | false r =>
      intro _ stack p
      rcases run_word 'a' ['l', 's', 'e'] r stack (p.past 'f') with ⟨p', hlater⟩
      exact ⟨p', (run_cons_of_on (by rfl) _).trans hlater⟩
  | number r hw =>
      intro hends stack p
      exact passes_number hw hends stack p
  | @text t r letters hquoted =>
      intro _ stack p
      rcases hquoted with ⟨t, rfl, hletters⟩
      have hplain : Quotation.State.plain.Standing := trivial
      have hreadable : Quotation.Readable false .plain letters [] := rfl
      rcases run_text hplain hletters hreadable stack (p.past '"') with ⟨p', hlater⟩
      exact ⟨p', (run_cons_of_on (by rfl) _).trans hlater⟩
  | @noItems t r hclose =>
      intro _ stack p
      rcases run_blank (.first .list) trivial hclose (.list :: stack) (p.past '[') with ⟨p₁, hskip⟩
      refine ⟨p₁.past ']', ?_⟩
      calc
        run .value stack ('[' :: t) p = run (.first .list) (.list :: stack) t (p.past '[') :=
          run_cons_of_on (by rfl) t
        _ = run (.first .list) (.list :: stack) (']' :: r) p₁ := hskip
        _ = resume stack r (p₁.past ']') := run_cons_of_close (by rfl) r
  | @list t t₁ t₂ r v vs hblank hv hvs ihv ihvs =>
      intro _ stack p
      rcases run_blank (.first .list) trivial hblank (.list :: stack) (p.past '[') with ⟨p₁, hskip⟩
      rcases ihv hvs.ends_moreItems (.list :: stack) p₁ with ⟨p₂, hvalue⟩
      rcases ihvs stack p₂ with ⟨p₃, hlater⟩
      refine ⟨p₃, ?_⟩
      calc
        run .value stack ('[' :: t) p = run (.first .list) (.list :: stack) t (p.past '[') :=
          run_cons_of_on (by rfl) t
        _ = run (.first .list) (.list :: stack) t₁ p₁ := hskip
        _ = run .value (.list :: stack) t₁ p₁ := run_first_value hv (.list :: stack) p₁
        _ = resume (.list :: stack) t₂ p₂ := hvalue
        _ = resume stack r p₃ := hlater
  | @lastItem t r hclose =>
      intro stack p
      rcases run_blank (.more .list) trivial hclose (.list :: stack) p with ⟨p₁, hskip⟩
      exact ⟨p₁.past ']', hskip.trans (run_cons_of_close (by rfl) r)⟩
  | @nextItem t t₁ t₂ t₃ r v vs hcomma hblank hv hvs ihv ihvs =>
      intro stack p
      rcases run_blank (.more .list) trivial hcomma (.list :: stack) p with ⟨p₁, hskip⟩
      rcases run_blank .value trivial hblank (.list :: stack) (p₁.past ',') with ⟨p₂, hskip'⟩
      rcases ihv hvs.ends_moreItems (.list :: stack) p₂ with ⟨p₃, hvalue⟩
      rcases ihvs stack p₃ with ⟨p₄, hlater⟩
      refine ⟨p₄, ?_⟩
      calc
        run (.more .list) (.list :: stack) t p = run (.more .list) (.list :: stack) (',' :: t₁) p₁ :=
          hskip
        _ = run .value (.list :: stack) t₁ (p₁.past ',') := run_cons_of_on (by rfl) t₁
        _ = run .value (.list :: stack) t₂ p₂ := hskip'
        _ = resume (.list :: stack) t₃ p₃ := hvalue
        _ = resume stack r p₄ := hlater
  | @noMembers t r hclose =>
      intro _ stack p
      rcases run_blank (.first .object) trivial hclose (.object :: stack) (p.past '\x7b') with
        ⟨p₁, hskip⟩
      refine ⟨p₁.past '\x7d', ?_⟩
      calc
        run .value stack ('\x7b' :: t) p =
            run (.first .object) (.object :: stack) t (p.past '\x7b') := run_cons_of_on (by rfl) t
        _ = run (.first .object) (.object :: stack) ('\x7d' :: r) p₁ := hskip
        _ = resume stack r (p₁.past '\x7d') := run_cons_of_close (by rfl) r
  | @object t t₁ t₂ r m ms hblank hm hms ihm ihms =>
      intro _ stack p
      rcases run_blank (.first .object) trivial hblank (.object :: stack) (p.past '\x7b') with
        ⟨p₁, hskip⟩
      rcases ihm hms.ends_moreMembers stack p₁ with ⟨p₂, hmember⟩
      rcases ihms stack p₂ with ⟨p₃, hlater⟩
      refine ⟨p₃, ?_⟩
      calc
        run .value stack ('\x7b' :: t) p =
            run (.first .object) (.object :: stack) t (p.past '\x7b') := run_cons_of_on (by rfl) t
        _ = run (.first .object) (.object :: stack) t₁ p₁ := hskip
        _ = run .key (.object :: stack) t₁ p₁ := run_first_member hm (.object :: stack) p₁
        _ = run (.more .object) (.object :: stack) t₂ p₂ := hmember
        _ = resume stack r p₃ := hlater
  | @member t t₁ t₂ t₃ r name v hname hcolon hblank hv ihv =>
      intro hends stack p
      rcases hname with ⟨inner, rfl, hletters⟩
      have hplain : Quotation.State.plain.Standing := trivial
      have hreadable : Quotation.Readable false .plain name [] := rfl
      rcases run_text hplain hletters hreadable (.object :: stack) (p.past '"') with ⟨p₁, hname⟩
      rcases run_blank .colon trivial hcolon (.object :: stack) p₁ with ⟨p₂, hskip⟩
      rcases run_blank .value trivial hblank (.object :: stack) (p₂.past ':') with ⟨p₃, hskip'⟩
      rcases ihv hends (.object :: stack) p₃ with ⟨p₄, hvalue⟩
      refine ⟨p₄, ?_⟩
      calc
        run .key (.object :: stack) ('"' :: inner) p =
            run (.text true .plain) (.object :: stack) inner (p.past '"') :=
          run_cons_of_on (by rfl) inner
        _ = run .colon (.object :: stack) t₁ p₁ := hname
        _ = run .colon (.object :: stack) (':' :: t₂) p₂ := hskip
        _ = run .value (.object :: stack) t₂ (p₂.past ':') := run_cons_of_on (by rfl) t₂
        _ = run .value (.object :: stack) t₃ p₃ := hskip'
        _ = run (.more .object) (.object :: stack) r p₄ := hvalue
  | @lastMember t r hclose =>
      intro stack p
      rcases run_blank (.more .object) trivial hclose (.object :: stack) p with ⟨p₁, hskip⟩
      exact ⟨p₁.past '\x7d', hskip.trans (run_cons_of_close (by rfl) r)⟩
  | @nextMember t t₁ t₂ t₃ r m ms hcomma hblank hm hms ihm ihms =>
      intro stack p
      rcases run_blank (.more .object) trivial hcomma (.object :: stack) p with ⟨p₁, hskip⟩
      rcases run_blank .key trivial hblank (.object :: stack) (p₁.past ',') with ⟨p₂, hskip'⟩
      rcases ihm hms.ends_moreMembers stack p₂ with ⟨p₃, hmember⟩
      rcases ihms stack p₃ with ⟨p₄, hlater⟩
      refine ⟨p₄, ?_⟩
      calc
        run (.more .object) (.object :: stack) t p =
            run (.more .object) (.object :: stack) (',' :: t₁) p₁ := hskip
        _ = run .key (.object :: stack) t₁ (p₁.past ',') := run_cons_of_on (by rfl) t₁
        _ = run .key (.object :: stack) t₂ p₂ := hskip'
        _ = run (.more .object) (.object :: stack) t₃ p₃ := hmember
        _ = resume stack r p₄ := hlater

end Skim

/-- A value is passed over, if something ends it. -/
theorem skimValue_of_derives {t t' r : List Char} {v : Tree} (hblank : Blank t t')
    (h : Derives (.value v) t' r) (hr : Ends r) (place : Place) :
    ∃ place', skimValue ⟨t, place⟩ = .ok ⟨r, place'⟩ := by
  rcases Skim.run_blank .value trivial hblank [] place with ⟨p₁, hskip⟩
  rcases Skim.passes_of_derives h hr [] p₁ with ⟨p₂, hvalue⟩
  exact ⟨p₂, hskip.trans hvalue⟩

end Json
end VerifierSession
