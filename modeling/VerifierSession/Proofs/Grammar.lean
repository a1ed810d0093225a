import VerifierSession.Json.Skim

/-!
# The grammar of JSON

What it is for a text to be a JSON value, apart from any reader.  Each relation holds between a
text, what its beginning spells, and what is left behind that.

* `Tree`: a value; its numbers stand as they are written, and its strings as letters, since the
  surrogates in a string need not be paired (`charsOf?`);
* `Blank`, `Spelled` and `IsNumber`: white space, the letters of a string, and numbers;
* `Derives`: values, with what may follow an item of a list and a member of an object;
* `Spells`: a whole text is one value, up to white space around it;
* `blank_skipBlank`: what readers pass over is white space;
* `Ends`: what may stand behind a value, which goes on with nothing of a number.
-/

namespace VerifierSession
namespace Json

/-! ## Trees -/

/-- A letter of a string: a character, or a UTF-16 unit that is given by its digits. -/
inductive Letter where
  | char (c : Char)
  | unit (n : Nat)
  deriving DecidableEq, Repr

inductive Tree where
  | null
  | boolean (b : Bool)
  | number (written : List Char)
  | text (letters : List Letter)
  | list (items : List Tree)
  | object (members : List (List Letter × Tree))

open Quotation (isLead isTrail pairValue)

/-- The characters that letters stand for, if every surrogate has its other half. -/
def charsOf? : List Letter → Option (List Char)
  | [] => some []
  | .char c :: letters => (charsOf? letters).map (c :: ·)
  | .unit n :: letters =>
      if isTrail n then none
      else if isLead n then
        match letters with
        | .unit m :: letters =>
            if isTrail m then (charsOf? letters).map (pairValue n m :: ·) else none
        | _ => none
      else (charsOf? letters).map (Char.ofNat n :: ·)

theorem charsOf?_unit {n : Nat} (htrail : isTrail n = false) (hlead : isLead n = false)
    (letters : List Letter) :
    charsOf? (.unit n :: letters) = (charsOf? letters).map (Char.ofNat n :: ·) := by
  rcases letters with _ | ⟨_ | _, _⟩ <;> simp [charsOf?, htrail, hlead]

theorem charsOf?_pair {n m : Nat} (hlead : isLead n = true) (htrail : isTrail m = true)
    (letters : List Letter) :
    charsOf? (.unit n :: .unit m :: letters) = (charsOf? letters).map (pairValue n m :: ·) := by
  have hfirst : isTrail n = false := by
    simp only [isLead, isTrail, Bool.and_eq_true, decide_eq_true_eq, Bool.and_eq_false_iff,
      decide_eq_false_iff_not] at hlead ⊢
    omega
  simp [charsOf?, hfirst, hlead, htrail]

/-! ## Tokens -/

inductive Blank : List Char → List Char → Prop where
  | nil (r : List Char) : Blank r r
  | cons {c : Char} {t r : List Char} : isJsonBlank c = true → Blank t r → Blank (c :: t) r

/-- The value of hexadecimal digits behind those that have a value already. -/
def hexFrom? (value : Nat) (ds : List Char) : Option Nat :=
  match ds with
  | [] => some value
  | d :: ds => (hexValue? d).bind fun digit => hexFrom? (value * 16 + digit) ds

/-- The letters of a string, up to where it closes. -/
inductive Spelled : List Char → List Letter → List Char → Prop where
  | nil (r : List Char) : Spelled r [] r
  | plain {c : Char} {t r : List Char} {letters : List Letter} :
      c ≠ '"' → c ≠ '\\' → 0x20 ≤ c.toNat → Spelled t letters r →
        Spelled (c :: t) (.char c :: letters) r
  | short {letter c : Char} {t r : List Char} {letters : List Letter} :
      escapeValue? letter = some c → Spelled t letters r →
        Spelled ('\\' :: letter :: t) (.char c :: letters) r
  | unit {ds t r : List Char} {n : Nat} {letters : List Letter} :
      ds.length = 4 → hexFrom? 0 ds = some n → Spelled t letters r →
        Spelled ('\\' :: 'u' :: (ds ++ t)) (.unit n :: letters) r

def Quoted (t : List Char) (letters : List Letter) (r : List Char) : Prop :=
  ∃ t', t = '"' :: t' ∧ Spelled t' letters ('"' :: r)

def AllDigits (ds : List Char) : Prop :=
  ∀ d ∈ ds, isDigit d = true

/-- The digits before the point: no further one stands behind a leading zero. -/
def IsWhole (w : List Char) : Prop :=
  w = ['0'] ∨ ∃ d ds, w = d :: ds ∧ d ≠ '0' ∧ isDigit d = true ∧ AllDigits ds

def IsFraction (w : List Char) : Prop :=
  w = [] ∨ ∃ ds, w = '.' :: ds ∧ ds ≠ [] ∧ AllDigits ds

def IsExponent (w : List Char) : Prop :=
  w = [] ∨ ∃ mark sign ds, w = mark :: (sign ++ ds) ∧ (mark = 'e' ∨ mark = 'E') ∧
    (sign = [] ∨ sign = ['+'] ∨ sign = ['-']) ∧ ds ≠ [] ∧ AllDigits ds

def IsNumber (w : List Char) : Prop :=
  ∃ sign whole fraction exponent, w = sign ++ (whole ++ (fraction ++ exponent)) ∧
    (sign = [] ∨ sign = ['-']) ∧ IsWhole whole ∧ IsFraction fraction ∧ IsExponent exponent

/-! ## Values -/

/-- What a text may begin with: a value, a member, or the rest of a list or of an object. -/
inductive Part where
  | value (v : Tree)
  | moreItems (vs : List Tree)
  | member (m : List Letter × Tree)
  | moreMembers (ms : List (List Letter × Tree))

inductive Derives : Part → List Char → List Char → Prop where
  | null (r : List Char) : Derives (.value .null) ('n' :: 'u' :: 'l' :: 'l' :: r) r
  | true (r : List Char) : Derives (.value (.boolean true)) ('t' :: 'r' :: 'u' :: 'e' :: r) r
  | false (r : List Char) :
      Derives (.value (.boolean false)) ('f' :: 'a' :: 'l' :: 's' :: 'e' :: r) r
  | number {w : List Char} (r : List Char) :
      IsNumber w → Derives (.value (.number w)) (w ++ r) r
  | text {t r : List Char} {letters : List Letter} :
      Quoted t letters r → Derives (.value (.text letters)) t r
  | noItems {t r : List Char} :
      Blank t (']' :: r) → Derives (.value (.list [])) ('[' :: t) r
  | list {t t₁ t₂ r : List Char} {v : Tree} {vs : List Tree} :
      Blank t t₁ → Derives (.value v) t₁ t₂ → Derives (.moreItems vs) t₂ r →
        Derives (.value (.list (v :: vs))) ('[' :: t) r
  | lastItem {t r : List Char} :
      Blank t (']' :: r) → Derives (.moreItems []) t r
  | nextItem {t t₁ t₂ t₃ r : List Char} {v : Tree} {vs : List Tree} :
      Blank t (',' :: t₁) → Blank t₁ t₂ → Derives (.value v) t₂ t₃ →
        Derives (.moreItems vs) t₃ r → Derives (.moreItems (v :: vs)) t r
  | noMembers {t r : List Char} :
      Blank t ('\x7d' :: r) → Derives (.value (.object [])) ('\x7b' :: t) r
  | object {t t₁ t₂ r : List Char} {m : List Letter × Tree} {ms : List (List Letter × Tree)} :
      Blank t t₁ → Derives (.member m) t₁ t₂ → Derives (.moreMembers ms) t₂ r →
        Derives (.value (.object (m :: ms))) ('\x7b' :: t) r
  | member {t t₁ t₂ t₃ r : List Char} {name : List Letter} {v : Tree} :
      Quoted t name t₁ → Blank t₁ (':' :: t₂) → Blank t₂ t₃ → Derives (.value v) t₃ r →
        Derives (.member (name, v)) t r
  | lastMember {t r : List Char} :
      Blank t ('\x7d' :: r) → Derives (.moreMembers []) t r
  | nextMember {t t₁ t₂ t₃ r : List Char} {m : List Letter × Tree}
      {ms : List (List Letter × Tree)} :
      Blank t (',' :: t₁) → Blank t₁ t₂ → Derives (.member m) t₂ t₃ →
        Derives (.moreMembers ms) t₃ r → Derives (.moreMembers (m :: ms)) t r

/-- A whole text is one value, with white space around it. -/
def Spells (text : List Char) (v : Tree) : Prop :=
  ∃ t r, Blank text t ∧ Derives (.value v) t r ∧ Blank r []

/-! ## Readers -/

/-- What two readers in turn accept was accepted by both. -/
theorem exists_of_bind_eq_ok {ε α β : Type} {x : Except ε α} {f : α → Except ε β} {b : β}
    (h : (x >>= f) = .ok b) : ∃ a, x = .ok a ∧ f a = .ok b := by
  cases x with
  | error e => cases h
  | ok a => exact ⟨a, rfl, h⟩

/-! ## White space -/

theorem Blank.trans {t u r : List Char} (htu : Blank t u) (hur : Blank u r) : Blank t r := by
  induction htu with
  | nil => exact hur
  | cons hc _ ih => exact .cons hc (ih hur)

/-- A character that is no white space is passed over by nothing. -/
theorem Blank.eq_of_not_blank {c : Char} {t r : List Char} (hc : isJsonBlank c = false)
    (h : Blank (c :: t) r) : r = c :: t := by
  cases h with
  | nil => rfl
  | cons hblank => simp [hc] at hblank

theorem blank_skipWhile (cs : List Char) (place : Place) :
    Blank cs (Cursor.skipWhile isJsonBlank cs place).rest := by
  induction cs generalizing place with
  | nil => exact .nil []
  | cons c cs ih =>
      by_cases hc : isJsonBlank c = true
      · rw [Cursor.skipWhile, if_pos hc]
        exact .cons hc (ih _)
      · rw [Cursor.skipWhile, if_neg hc]
        exact .nil _

theorem blank_skipBlank (c : Cursor) : Blank c.rest c.skipBlank.rest :=
  blank_skipWhile c.rest c.place

/-! ## What ends a value -/

/-- What may stand behind a value: white space, a comma, a closing bracket, or nothing. -/
def Ends (r : List Char) : Prop :=
  ∀ c r', r = c :: r' → isJsonBlank c = true ∨ c = ',' ∨ c = ']' ∨ c = '\x7d'

def isNumeric (c : Char) : Bool :=
  isDigit c || c == '-' || c == '+' || c == '.' || c == 'e' || c == 'E'

theorem isNumeric_of_ends {c : Char} {r : List Char} (h : Ends (c :: r)) : isNumeric c = false := by
  rcases h c r rfl with hblank | rfl | rfl | rfl
  · simp only [isJsonBlank, Bool.or_eq_true, beq_iff_eq, or_assoc] at hblank
    rcases hblank with rfl | rfl | rfl | rfl <;> decide
  · decide
  · decide
  · decide

theorem Blank.ends {t r : List Char} (h : Blank t r) (hr : Ends r) : Ends t := by
  induction h with
  | nil => exact hr
  | cons hblank _ _ =>
      intro c r' heq
      cases heq
      exact .inl hblank

theorem ends_nil : Ends [] := by
  intro c r' heq
  cases heq

theorem ends_cons {c : Char} {r : List Char} (h : c = ',' ∨ c = ']' ∨ c = '\x7d') :
    Ends (c :: r) := by
  intro c' r' heq
  cases heq
  exact .inr h

end Json
end VerifierSession
