import Mathlib.Tactic.SplitIfs
import VerifierSession.Proofs.Spelling

/-!
# Values passed over

The machine that passes over a value accepts only values of the grammar.

* `Skim.NumberRest` and `Skim.Closes`: what may follow the part of a number read so far, and what
  closes the open brackets;
* `Skim.Demand`: what a state of the machine still asks of the text;
* `Skim.demand_step`, `Skim.demand_finish`: one character takes from the demand what it brings,
  and a whole run meets it (`Skim.demand_run`);
* `skimValue_derives`: what was passed over is a value.
-/

namespace VerifierSession
namespace Json
namespace Skim

/-! ## Numbers -/

/-- What may stand behind the part of a number that was read last. -/
def NumberRest (part : Digits) (w : List Char) : Prop :=
  match part with
  | .minus =>
      ∃ whole fraction exponent, w = whole ++ (fraction ++ exponent) ∧ IsWhole whole ∧
        IsFraction fraction ∧ IsExponent exponent
  | .zero => ∃ fraction exponent, w = fraction ++ exponent ∧ IsFraction fraction ∧
      IsExponent exponent
  | .whole =>
      ∃ ds fraction exponent, w = ds ++ (fraction ++ exponent) ∧ AllDigits ds ∧
        IsFraction fraction ∧ IsExponent exponent
  | .point => ∃ ds exponent, w = ds ++ exponent ∧ ds ≠ [] ∧ AllDigits ds ∧ IsExponent exponent
  | .fraction => ∃ ds exponent, w = ds ++ exponent ∧ AllDigits ds ∧ IsExponent exponent
  | .mark =>
      ∃ sign ds, w = sign ++ ds ∧ (sign = [] ∨ sign = ['+'] ∨ sign = ['-']) ∧ ds ≠ [] ∧
        AllDigits ds
  | .sign => w ≠ [] ∧ AllDigits w
  | .power => AllDigits w

theorem allDigits_nil : AllDigits [] := by
  simp [AllDigits]

theorem allDigits_cons {d : Char} {ds : List Char} (hd : isDigit d = true) (hds : AllDigits ds) :
    AllDigits (d :: ds) := by
  simpa [AllDigits] using ⟨hd, hds⟩

theorem isFraction_nil : IsFraction [] := .inl rfl

theorem isExponent_nil : IsExponent [] := .inl rfl

theorem numberRest_nil {part : Digits} (h : part.isWhole = true) : NumberRest part [] := by
  cases part with
  | zero => exact ⟨[], [], rfl, isFraction_nil, isExponent_nil⟩
  | whole => exact ⟨[], [], [], rfl, allDigits_nil, isFraction_nil, isExponent_nil⟩
  | fraction => exact ⟨[], [], rfl, allDigits_nil, isExponent_nil⟩
  | power => exact allDigits_nil
  | minus => cases h
  | point => cases h
  | mark => cases h
  | sign => cases h

theorem isFraction_point {w exponent : List Char} {ds : List Char} (hw : w = ds ++ exponent)
    (hne : ds ≠ []) (hds : AllDigits ds) :
    IsFraction ('.' :: ds) ∧ '.' :: w = ('.' :: ds) ++ exponent :=
  ⟨.inr ⟨ds, rfl, hne, hds⟩, by rw [hw, List.cons_append]⟩

/-- What follows the mark of an exponent makes an exponent of it. -/
theorem isExponent_mark {c : Char} {w : List Char} (hc : c = 'e' ∨ c = 'E')
    (hw : NumberRest .mark w) : IsExponent (c :: w) := by
  rcases hw with ⟨sign, ds, rfl, hsign, hne, hds⟩
  exact .inr ⟨c, sign, ds, rfl, hc, hsign, hne, hds⟩

theorem numberRest_extend {part next : Digits} {c : Char} {w : List Char}
    (h : part.extend? c = some next) (hw : NumberRest next w) : NumberRest part (c :: w) := by
  cases part with
  | minus =>
      simp only [Digits.extend?] at h
      split_ifs at h with hzero hdigit
      · cases h
        rcases hw with ⟨fraction, exponent, rfl, hfraction, hexponent⟩
        exact ⟨['0'], fraction, exponent, by rw [hzero]; rfl, .inl rfl, hfraction, hexponent⟩
      · cases h
        rcases hw with ⟨ds, fraction, exponent, rfl, hds, hfraction, hexponent⟩
        exact ⟨c :: ds, fraction, exponent, rfl, .inr ⟨c, ds, rfl, hzero, hdigit, hds⟩,
          hfraction, hexponent⟩
  | zero =>
      simp only [Digits.extend?] at h
      split_ifs at h with hpoint hmark
      · cases h
        subst hpoint
        rcases hw with ⟨ds, exponent, hw, hne, hds, hexponent⟩
        rcases isFraction_point hw hne hds with ⟨hfraction, heq⟩
        exact ⟨_, _, heq, hfraction, hexponent⟩
      · cases h
        exact ⟨[], c :: w, rfl, isFraction_nil, isExponent_mark hmark hw⟩
  | whole =>
      simp only [Digits.extend?] at h
      split_ifs at h with hdigit hpoint hmark
      · cases h
        rcases hw with ⟨ds, fraction, exponent, rfl, hds, hfraction, hexponent⟩
        exact ⟨c :: ds, fraction, exponent, rfl, allDigits_cons hdigit hds, hfraction, hexponent⟩
      · cases h
        subst hpoint
        rcases hw with ⟨ds, exponent, hw, hne, hds, hexponent⟩
        rcases isFraction_point hw hne hds with ⟨hfraction, heq⟩
        exact ⟨[], _, _, heq, allDigits_nil, hfraction, hexponent⟩
      · cases h
        exact ⟨[], [], c :: w, rfl, allDigits_nil, isFraction_nil, isExponent_mark hmark hw⟩
  | point =>
      simp only [Digits.extend?] at h
      split_ifs at h with hdigit
      cases h
      rcases hw with ⟨ds, exponent, rfl, hds, hexponent⟩
      exact ⟨c :: ds, exponent, rfl, List.cons_ne_nil c ds, allDigits_cons hdigit hds, hexponent⟩
  | fraction =>
      simp only [Digits.extend?] at h
      split_ifs at h with hdigit hmark
      · cases h
        rcases hw with ⟨ds, exponent, rfl, hds, hexponent⟩
        exact ⟨c :: ds, exponent, rfl, allDigits_cons hdigit hds, hexponent⟩
      · cases h
        exact ⟨[], c :: w, rfl, allDigits_nil, isExponent_mark hmark hw⟩
  | mark =>
      simp only [Digits.extend?] at h
      split_ifs at h with hdigit hsign
      · cases h
        exact ⟨[], c :: w, rfl, .inl rfl, List.cons_ne_nil c w, allDigits_cons hdigit hw⟩
      · cases h
        rcases hw with ⟨hne, hds⟩
        rcases hsign with rfl | rfl
        · exact ⟨['+'], w, rfl, .inr (.inl rfl), hne, hds⟩
        · exact ⟨['-'], w, rfl, .inr (.inr rfl), hne, hds⟩
  | sign =>
      simp only [Digits.extend?] at h
      split_ifs at h with hdigit
      cases h
      exact ⟨List.cons_ne_nil c w, allDigits_cons hdigit hw⟩
  | power =>
      simp only [Digits.extend?] at h
      split_ifs at h with hdigit
      cases h
      exact allDigits_cons hdigit hw

/-! ## What is left to read -/

/-- What closes the open brackets, the innermost first. -/
def Closes (stack : List Frame) (t r : List Char) : Prop :=
  match stack with
  | [] => t = r
  | .list :: stack => ∃ vs t', Derives (.moreItems vs) t t' ∧ Closes stack t' r
  | .object :: stack => ∃ ms t', Derives (.moreMembers ms) t t' ∧ Closes stack t' r

def Frame.closing : Frame → Char
  | .list => ']'
  | .object => '\x7d'

theorem Frame.eq_closing {frame : Frame} {c : Char} (h : frame.closedBy c = true) :
    c = frame.closing := by
  cases frame <;> simpa [closedBy, closing] using h

/-- A value, and what closes the brackets around it. -/
def ClosesValue (stack : List Frame) (t r : List Char) : Prop :=
  ∃ v t', Derives (.value v) t t' ∧ Closes stack t' r

def ClosesMember (stack : List Frame) (t r : List Char) : Prop :=
  ∃ m t', Derives (.member m) t t' ∧ Closes stack t' r

/-- What stands behind the name of a member, and what closes the brackets around it. -/
def ClosesNamed (stack : List Frame) (t r : List Char) : Prop :=
  ∃ t₁ t₂, Blank t (':' :: t₁) ∧ Blank t₁ t₂ ∧ ClosesValue stack t₂ r

/-- What stands behind an opening bracket: white space, and the other bracket or an entry. -/
def ClosesFirst (frame : Frame) (stack : List Frame) (t r : List Char) : Prop :=
  ∃ t₁, Blank t t₁ ∧
    ((∃ t₂, t₁ = frame.closing :: t₂ ∧ Closes stack.tail t₂ r) ∨
      match frame with
      | .list => ClosesValue stack t₁ r
      | .object => ClosesMember stack t₁ r)

/-- What a state of the machine asks of a text, up to what is left behind the value. -/
def Demand (awaiting : Awaiting) (stack : List Frame) (t r : List Char) : Prop :=
  match awaiting with
  | .value => ∃ t', Blank t t' ∧ ClosesValue stack t' r
  | .word rest => ∃ t', t = rest ++ t' ∧ Closes stack t' r
  | .number part => ∃ w t', t = w ++ t' ∧ NumberRest part w ∧ Closes stack t' r
  | .text isKey state =>
      ∃ letters t', Quotation.Remains state t letters ('"' :: t') ∧
        if isKey then ClosesNamed stack t' r else Closes stack t' r
  | .first frame => ClosesFirst frame stack t r
  | .key => ∃ t', Blank t t' ∧ ClosesMember stack t' r
  | .colon => ClosesNamed stack t r
  | .more _ => Closes stack t r

/-- The state of the machine suits its innermost bracket. -/
def Fits (awaiting : Awaiting) (stack : List Frame) : Prop :=
  match awaiting with
  | .value | .word _ | .number _ => True
  | .text isKey state => state.Standing ∧ (isKey = true → stack.head? = some .object)
  | .first frame | .more frame => stack.head? = some frame
  | .key | .colon => stack.head? = some .object

def Move.Fits : Move → Prop
  | .on awaiting stack => Skim.Fits awaiting stack
  | .ended | .endedBefore => True

/-- What is asked of the text behind a character, after the move that it brought. -/
def Move.Demand (move : Move) (c : Char) (t r : List Char) : Prop :=
  match move with
  | .on awaiting stack => Skim.Demand awaiting stack t r
  | .ended => t = r
  | .endedBefore => c :: t = r

/-! ## One character -/

section Step

variable {awaiting : Awaiting} {frame : Frame} {stack : List Frame} {p : Place} {c : Char}
  {move : Move}

theorem fits_close (stack : List Frame) : (close stack).Fits := by
  cases stack <;> trivial

theorem demand_close (stack : List Frame) (c : Char) (t r : List Char) :
    (close stack).Demand c t r = Closes stack t r := by
  cases stack <;> rfl

theorem demand_startValue (h : startValue stack p c = .ok move) :
    move.Fits ∧ ∀ t r, move.Demand c t r → ClosesValue stack (c :: t) r := by
  rw [startValue.eq_def] at h
  split at h
  · cases h
    refine ⟨trivial, ?_⟩
    rintro t r ⟨t', rfl, hclose⟩
    exact ⟨.null, t', .null t', hclose⟩
  · cases h
    refine ⟨trivial, ?_⟩
    rintro t r ⟨t', rfl, hclose⟩
    exact ⟨.boolean true, t', .true t', hclose⟩
  · cases h
    refine ⟨trivial, ?_⟩
    rintro t r ⟨t', rfl, hclose⟩
    exact ⟨.boolean false, t', .false t', hclose⟩
  · cases h
    refine ⟨trivial, ?_⟩
    rintro t r ⟨w, t', rfl, ⟨whole, fraction, exponent, rfl, hwhole, hfraction, hexponent⟩, hclose⟩
    have hnumber : IsNumber ('-' :: (whole ++ (fraction ++ exponent))) :=
      ⟨['-'], whole, fraction, exponent, rfl, .inr rfl, hwhole, hfraction, hexponent⟩
    exact ⟨_, t', .number t' hnumber, hclose⟩
  · cases h
    refine ⟨⟨trivial, fun h => absurd h Bool.false_ne_true⟩, ?_⟩
    rintro t r ⟨letters, t', hletters, hclose⟩
    exact ⟨.text letters, t', .text ⟨t, rfl, hletters⟩, hclose⟩
  · cases h
    refine ⟨rfl, ?_⟩
    rintro t r ⟨t₁, hblank, ⟨t₂, rfl, hclose⟩ | ⟨v, t₂, hv, vs, t₃, hvs, hclose⟩⟩
    · exact ⟨.list [], t₂, .noItems hblank, hclose⟩
    · exact ⟨.list (v :: vs), t₃, .list hblank hv hvs, hclose⟩
  · cases h
    refine ⟨rfl, ?_⟩
    rintro t r ⟨t₁, hblank, ⟨t₂, rfl, hclose⟩ | ⟨m, t₂, hm, ms, t₃, hms, hclose⟩⟩
    · exact ⟨.object [], t₂, .noMembers hblank, hclose⟩
    · exact ⟨.object (m :: ms), t₃, .object hblank hm hms, hclose⟩
  · cases h
    refine ⟨trivial, ?_⟩
    rintro t r ⟨w, t', rfl, ⟨fraction, exponent, rfl, hfraction, hexponent⟩, hclose⟩
    have hnumber : IsNumber ('0' :: (fraction ++ exponent)) :=
      ⟨[], ['0'], fraction, exponent, rfl, .inl rfl, .inl rfl, hfraction, hexponent⟩
    exact ⟨_, t', .number t' hnumber, hclose⟩
  · rename_i hzero
    by_cases hdigit : isDigit c = true
    · rw [if_pos hdigit] at h
      cases h
      refine ⟨trivial, ?_⟩
      rintro t r ⟨w, t', rfl, ⟨ds, fraction, exponent, rfl, hds, hfraction, hexponent⟩, hclose⟩
      have hnumber : IsNumber (c :: (ds ++ (fraction ++ exponent))) :=
        ⟨[], c :: ds, fraction, exponent, rfl, .inl rfl, .inr ⟨c, ds, rfl, hzero, hdigit, hds⟩,
          hfraction, hexponent⟩
      exact ⟨_, t', .number t' hnumber, hclose⟩
    · rw [if_neg hdigit] at h
      cases h

theorem demand_startKey (hstack : stack.head? = some .object)
    (h : startKey stack p c = .ok move) :
    move.Fits ∧ ∀ t r, move.Demand c t r → ClosesMember stack (c :: t) r := by
  by_cases hc : c = '"'
  · rw [startKey, if_pos hc] at h
    cases h
    refine ⟨⟨trivial, fun _ => hstack⟩, ?_⟩
    rintro t r ⟨letters, t', hletters, t₁, t₂, hcolon, hblank, v, t₃, hv, hclose⟩
    exact ⟨(letters, v), t₃, .member ⟨t, by rw [hc], hletters⟩ hcolon hblank hv, hclose⟩
  · rw [startKey, if_neg hc] at h
    cases h

theorem closes_cons_blank {t r : List Char} (hc : isJsonBlank c = true)
    (hstack : stack.head? = some frame) (h : Closes stack t r) : Closes stack (c :: t) r := by
  cases stack with
  | nil => cases hstack
  | cons outer stack =>
      cases outer with
      | list =>
          rcases h with ⟨vs, t', hvs, hclose⟩
          refine ⟨vs, t', ?_, hclose⟩
          cases hvs with
          | lastItem hend => exact .lastItem (.cons hc hend)
          | nextItem hcomma hblank hv hlater => exact .nextItem (.cons hc hcomma) hblank hv hlater
      | object =>
          rcases h with ⟨ms, t', hms, hclose⟩
          refine ⟨ms, t', ?_, hclose⟩
          cases hms with
          | lastMember hend => exact .lastMember (.cons hc hend)
          | nextMember hcomma hblank hm hlater =>
              exact .nextMember (.cons hc hcomma) hblank hm hlater

theorem demand_afterValue (hstack : stack.head? = some frame)
    (h : afterValue frame stack p c = .ok move) :
    move.Fits ∧ ∀ t r, move.Demand c t r → Closes stack (c :: t) r := by
  rcases stack with _ | ⟨outer, stack⟩
  · cases hstack
  cases hstack
  simp only [afterValue] at h
  split_ifs at h with hclosed hcomma hblank
  · cases h
    refine ⟨fits_close stack, fun t r ht => ?_⟩
    rw [List.tail_cons, demand_close] at ht
    rw [Frame.eq_closing hclosed]
    cases frame with
    | list => exact ⟨[], t, .lastItem (.nil _), ht⟩
    | object => exact ⟨[], t, .lastMember (.nil _), ht⟩
  · cases h
    subst hcomma
    cases frame with
    | list =>
        refine ⟨trivial, ?_⟩
        rintro t r ⟨t₁, hblank, v, t₂, hv, vs, t₃, hvs, hclose⟩
        exact ⟨v :: vs, t₃, .nextItem (.nil _) hblank hv hvs, hclose⟩
    | object =>
        refine ⟨rfl, ?_⟩
        rintro t r ⟨t₁, hblank, m, t₂, hm, ms, t₃, hms, hclose⟩
        exact ⟨m :: ms, t₃, .nextMember (.nil _) hblank hm hms, hclose⟩
  · cases h
    exact ⟨rfl, fun t r ht => closes_cons_blank hblank rfl ht⟩

theorem demand_first (hstack : stack.head? = some frame)
    (h : step (.first frame) stack p c = .ok move) :
    move.Fits ∧ ∀ t r, move.Demand c t r → ClosesFirst frame stack (c :: t) r := by
  simp only [step] at h
  split_ifs at h with hclosed hblank
  · cases h
    refine ⟨fits_close _, fun t r ht => ⟨c :: t, .nil _, .inl ⟨t, ?_, ?_⟩⟩⟩
    · rw [Frame.eq_closing hclosed]
    · rwa [demand_close] at ht
  · cases h
    refine ⟨hstack, ?_⟩
    rintro t r ⟨t₁, hbefore, hfirst⟩
    exact ⟨t₁, .cons hblank hbefore, hfirst⟩
  · cases frame with
    | list =>
        rcases demand_startValue h with ⟨hfits, hdemand⟩
        exact ⟨hfits, fun t r ht => ⟨c :: t, .nil _, .inr (hdemand t r ht)⟩⟩
    | object =>
        rcases demand_startKey hstack h with ⟨hfits, hdemand⟩
        exact ⟨hfits, fun t r ht => ⟨c :: t, .nil _, .inr (hdemand t r ht)⟩⟩

theorem demand_number {part : Digits} (h : step (.number part) stack p c = .ok move) :
    move.Fits ∧ ∀ t r, move.Demand c t r → Demand (.number part) stack (c :: t) r := by
  cases hextend : part.extend? c with
  | some next =>
      simp only [step, hextend] at h
      cases h
      refine ⟨trivial, ?_⟩
      rintro t r ⟨w, t', rfl, hw, hclose⟩
      exact ⟨c :: w, t', rfl, numberRest_extend hextend hw, hclose⟩
  | none =>
      simp only [step, hextend] at h
      split_ifs at h with hunfinished
      -- A machine that may not stop here has refused the character.
      have hwhole : part.isWhole = true := by
        cases hpart : part.isWhole <;> simp [hpart] at hunfinished ⊢
      -- The number has ended before this character.
      have hended : ∀ t r, Closes stack (c :: t) r → Demand (.number part) stack (c :: t) r :=
        fun t r ht => ⟨[], c :: t, rfl, numberRest_nil hwhole, ht⟩
      cases stack with
      | nil =>
          cases h
          exact ⟨trivial, fun t r ht => hended t r ht⟩
      | cons frame stack =>
          rcases demand_afterValue rfl h with ⟨hfits, hdemand⟩
          exact ⟨hfits, fun t r ht => hended t r (hdemand t r ht)⟩

theorem demand_text {isKey : Bool} {state : Quotation.State}
    (hfits : Fits (.text isKey state) stack)
    (h : step (.text isKey state) stack p c = .ok move) :
    move.Fits ∧ ∀ t r, move.Demand c t r → Demand (.text isKey state) stack (c :: t) r := by
  rcases hfits with ⟨hstanding, hkey⟩
  cases hstep : Quotation.step false p state c with
  | error fault => simp [step, hstep] at h
  | ok inner =>
      simp only [step, hstep] at h
      cases inner with
      | inside next settled =>
          cases h
          rcases Quotation.remains_step hstanding hstep with ⟨hnext, hback⟩
          refine ⟨⟨hnext, hkey⟩, ?_⟩
          rintro t r ⟨letters, t', hletters, hclose⟩
          rcases hback t letters _ hletters with ⟨letters', hletters', -⟩
          exact ⟨letters', t', hletters', hclose⟩
      | closed =>
          rcases Quotation.step_closed hstep with ⟨rfl, rfl⟩
          cases isKey with
          | true =>
              cases h
              exact ⟨hkey rfl, fun t r ht => ⟨[], t, .nil _, ht⟩⟩
          | false =>
              cases h
              refine ⟨fits_close stack, fun t r ht => ⟨[], t, .nil _, ?_⟩⟩
              exact demand_close stack '"' t r ▸ ht

/-- One character takes from what the machine asks of the text what it brings. -/
theorem demand_step (hfits : Fits awaiting stack) (h : step awaiting stack p c = .ok move) :
    move.Fits ∧ ∀ t r, move.Demand c t r → Demand awaiting stack (c :: t) r := by
  cases awaiting with
  | number part => exact demand_number h
  | text isKey state => exact demand_text hfits h
  | first frame => exact demand_first hfits h
  | more frame => exact demand_afterValue hfits h
  | value =>
      simp only [step] at h
      split_ifs at h with hblank
      · cases h
        refine ⟨trivial, ?_⟩
        rintro t r ⟨t', hbefore, hvalue⟩
        exact ⟨t', .cons hblank hbefore, hvalue⟩
      · rcases demand_startValue h with ⟨hmove, hdemand⟩
        exact ⟨hmove, fun t r ht => ⟨c :: t, .nil _, hdemand t r ht⟩⟩
  | key =>
      simp only [step] at h
      split_ifs at h with hblank
      · cases h
        refine ⟨hfits, ?_⟩
        rintro t r ⟨t', hbefore, hmember⟩
        exact ⟨t', .cons hblank hbefore, hmember⟩
      · rcases demand_startKey hfits h with ⟨hmove, hdemand⟩
        exact ⟨hmove, fun t r ht => ⟨c :: t, .nil _, hdemand t r ht⟩⟩
  | colon =>
      simp only [step] at h
      split_ifs at h with hblank hcolon
      · cases h
        refine ⟨hfits, ?_⟩
        rintro t r ⟨t₁, t₂, hbefore, hvalue⟩
        exact ⟨t₁, t₂, .cons hblank hbefore, hvalue⟩
      · cases h
        refine ⟨trivial, ?_⟩
        rintro t r ⟨t', hbefore, hvalue⟩
        exact ⟨t, t', hcolon ▸ .nil _, hbefore, hvalue⟩
  | word rest =>
      rcases rest with _ | ⟨expected, rest⟩
      · cases h
      simp only [step] at h
      split_ifs at h with hc hlast
      · cases h
        refine ⟨fits_close stack, fun t r ht => ⟨t, ?_, demand_close stack c t r ▸ ht⟩⟩
        rw [hc, List.isEmpty_iff.1 hlast]
        rfl
      · cases h
        refine ⟨trivial, ?_⟩
        rintro t r ⟨t', rfl, hclose⟩
        exact ⟨t', by rw [hc]; rfl, hclose⟩

end Step

/-! ## Whole runs -/

theorem demand_finish {awaiting : Awaiting} {stack : List Frame} {p : Place} {c : Cursor}
    (h : finish awaiting stack p = .ok c) : Demand awaiting stack [] c.rest := by
  cases awaiting with
  | number part =>
      simp only [finish] at h
      split_ifs at h with hwhole
      cases stack with
      | nil =>
          cases h
          exact ⟨[], [], rfl, numberRest_nil hwhole, rfl⟩
      | cons frame stack => cases h
  | value => cases h
  | word rest => cases h
  | text isKey state => cases h
  | first frame => cases h
  | key => cases h
  | colon => cases h
  | more frame => cases h

theorem demand_run {awaiting : Awaiting} {stack : List Frame} {cs : List Char} {p : Place}
    {c : Cursor} (hfits : Fits awaiting stack) (h : run awaiting stack cs p = .ok c) :
    Demand awaiting stack cs c.rest := by
  -- The machine keeps nothing of what it read, so its demand is met from the end back.
  induction cs generalizing awaiting stack p with
  | nil => exact demand_finish h
  | cons ch cs ih =>
      rw [run] at h
      cases hstep : step awaiting stack p ch with
      | error fault => simp [hstep] at h
      | ok move =>
          rcases demand_step hfits hstep with ⟨hmove, hdemand⟩
          apply hdemand
          simp only [hstep] at h
          cases move with
          | on next stack' => exact ih hmove h
          | ended =>
              cases h
              rfl
          | endedBefore =>
              cases h
              rfl

end Skim

theorem skimValue_derives {c c' : Cursor} (h : skimValue c = .ok c') :
    ∃ t v, Blank c.rest t ∧ Derives (.value v) t c'.rest := by
  have hfits : Skim.Fits .value [] := trivial
  rcases Skim.demand_run hfits h with ⟨t, hblank, v, t', hv, rfl⟩
  exact ⟨t, v, hblank, hv⟩

end Json
end VerifierSession
