import VerifierSession.Log.Entry
import VerifierSession.Proofs.Calendar

/-!
# Log entries, read back

A line of the log is read back: its moment up to the millisecond, its level and its message.  The
brackets end at the first closing one, which neither a moment nor a level has, so it makes no
difference what the message is.

* `readNumbers`: numbers with a mark behind each, as dates and times of day are written;
* `Moment.read?`: the moment that a date and a time of day stand for, by `Date.count`;
* `LogEntry.read?`: the entry that a line stands for;
* `LogEntry.line_determines_entry`: reading a line gives back the entry it was written for.
-/

namespace VerifierSession

/-! ## Numbers -/

/-- Reads numbers that each end with a mark of their own. -/
def readNumbers (marks cs : List Char) : Option (List Nat) :=
  match marks with
  | [] => if cs = [] then some [] else none
  | mark :: marks =>
      let digits := cs.takeWhile Char.isDigit
      let behind := cs.dropWhile Char.isDigit
      if digits ≠ [] ∧ behind.head? = some mark then
        (readNumbers marks behind.tail).map (Nat.ofDigitChars 10 digits 0 :: ·)
      else none

theorem isDigit_of_mem_paddedDigits {width n : Nat} {c : Char} (h : c ∈ paddedDigits width n) :
    c.isDigit = true := by
  rcases List.mem_append.1 h with hzero | hdigit
  · rw [List.eq_of_mem_replicate hzero]
    rfl
  · exact Nat.isDigit_of_mem_toDigits (by decide) (by decide) hdigit

theorem paddedDigits_ne_nil (width n : Nat) : paddedDigits width n ≠ [] := by
  simp [paddedDigits, Nat.toDigits_ne_nil]

theorem ofDigitChars_paddedDigits (width n : Nat) :
    Nat.ofDigitChars 10 (paddedDigits width n) 0 = n := by
  have hzeros (k : Nat) : Nat.ofDigitChars 10 (List.replicate k '0') 0 = 0 := by
    induction k with
    | zero => rfl
    | succ k ih => simp [List.replicate_succ, Nat.ofDigitChars_cons, ih]
  simp [paddedDigits, Nat.ofDigitChars_append, hzeros]

theorem readNumbers_paddedDigits {mark : Char} (hmark : mark.isDigit = false) (marks : List Char)
    (width n : Nat) (rest : List Char) :
    readNumbers (mark :: marks) (paddedDigits width n ++ mark :: rest) =
      (readNumbers marks rest).map (n :: ·) := by
  have hdigits : ∀ c ∈ paddedDigits width n, c.isDigit = true :=
    fun c hc => isDigit_of_mem_paddedDigits hc
  have htake : (paddedDigits width n ++ mark :: rest).takeWhile Char.isDigit =
      paddedDigits width n := by
    simp [List.takeWhile_append_of_pos hdigits, hmark]
  have hdrop : (paddedDigits width n ++ mark :: rest).dropWhile Char.isDigit = mark :: rest := by
    simp [List.dropWhile_append_of_pos hdigits, hmark]
  rw [readNumbers, htake, hdrop, if_pos ⟨paddedDigits_ne_nil width n, rfl⟩,
    ofDigitChars_paddedDigits, List.tail_cons]

/-- The sign of a number, and what follows it. -/
def readSign (cs : List Char) : Int × List Char :=
  match cs with
  | '-' :: cs => (-1, cs)
  | '+' :: cs => (1, cs)
  | cs => (1, cs)

theorem readSign_paddedDigits (width n : Nat) (rest : List Char) :
    readSign (paddedDigits width n ++ rest) = (1, paddedDigits width n ++ rest) := by
  cases hdigits : paddedDigits width n with
  | nil => exact absurd hdigits (paddedDigits_ne_nil width n)
  | cons d ds =>
      have hd : d.isDigit = true :=
        isDigit_of_mem_paddedDigits (hdigits ▸ List.mem_cons_self)
      rw [List.cons_append]
      unfold readSign
      split
      · next h =>
          cases h
          cases hd
      · next h =>
          cases h
          cases hd
      · rfl

/-- A year is written as its sign, if it needs one, and the digits of its distance from zero. -/
theorem exists_sign (year : Int) :
    ∃ (sign : Int) (n : Nat), sign * n = year ∧
      ∀ rest, readSign (yearDigits year ++ rest) = (sign, paddedDigits 4 n ++ rest) := by
  unfold yearDigits
  by_cases hshort : 0 ≤ year ∧ year ≤ 9999
  · rw [if_pos hshort]
    exact ⟨1, year.toNat, by omega, fun rest => readSign_paddedDigits 4 year.toNat rest⟩
  · rw [if_neg hshort]
    by_cases hnegative : year < 0
    · exact ⟨-1, year.natAbs, by omega, fun rest => by simp [hnegative, readSign]⟩
    · exact ⟨1, year.natAbs, by omega, fun rest => by simp [hnegative, readSign]⟩

/-! ## Moments -/

namespace Moment

/-- The milliseconds since 1970, rounded down. -/
def milliseconds (m : Moment) : Int :=
  m.seconds * 1000 + (m.nanoseconds / 1000000 : Nat)

/-- The moment without what is shorter than a millisecond. -/
def truncated (m : Moment) : Moment :=
  ⟨m.seconds, m.nanoseconds / 1000000 * 1000000, by have := m.inSecond; omega⟩

/-- The moment of a date and a time of day; second 60 is a leap second. -/
def ofFields? (date : Date) (hour minute second millisecond : Nat) : Option Moment :=
  if h : date.IsValid ∧ hour < 24 ∧ minute < 60 ∧ second ≤ 60 ∧ millisecond < 1000 then
    some ⟨date.count * 86400 + (hour * 3600 + minute * 60 + (second - second / 60) : Nat),
      second / 60 * 1000000000 + millisecond * 1000000, by omega⟩
  else none

def read? (cs : List Char) : Option Moment :=
  match readNumbers ['-', '-', 'T', ':', ':', '.', 'Z'] (readSign cs).2 with
  | some [year, month, day, hour, minute, second, millisecond] =>
      ofFields? ⟨(readSign cs).1 * year, month, day⟩ hour minute second millisecond
  | _ => none

theorem read?_chars (m : Moment) :
    read? m.chars =
      ofFields? (Date.ofDay m.day) (m.secondOfDay / 3600) (m.secondOfDay / 60 % 60) m.second
        m.millisecond := by
  obtain ⟨sign, n, hyear, hsign⟩ := exists_sign (Date.ofDay m.day).year
  have hend : readNumbers [] [] = some [] := rfl
  simp [read?, chars, Date.chars, hsign, readNumbers_paddedDigits, hend, hyear]

theorem exists_ofFields? (m : Moment) :
    ∃ read, ofFields? (Date.ofDay m.day) (m.secondOfDay / 3600) (m.secondOfDay / 60 % 60) m.second
        m.millisecond = some read ∧
      read.milliseconds = m.milliseconds ∧ (m.isRegular = true → read = m.truncated) := by
  have hvalid := Date.isValid_ofDay m.day
  have hcount := Date.count_ofDay m.day
  have hday : m.seconds = m.day * 86400 + m.secondOfDay ∧ m.secondOfDay < 86400 := by
    unfold day secondOfDay
    rw [Int.fdiv_eq_ediv_of_nonneg _ (by decide), Int.fmod_eq_emod_of_nonneg _ (by decide)]
    omega
  have hnanos := m.inSecond
  have hfields : (Date.ofDay m.day).IsValid ∧ m.secondOfDay / 3600 < 24 ∧
      m.secondOfDay / 60 % 60 < 60 ∧ m.second ≤ 60 ∧ m.millisecond < 1000 := by
    refine ⟨hvalid, ?_⟩
    unfold second millisecond
    omega
  refine ⟨_, dif_pos hfields, ?_, ?_⟩
  · unfold milliseconds second millisecond
    simp only [hcount]
    omega
  · intro h
    unfold isRegular at h
    rw [Int.fmod_eq_emod_of_nonneg _ (by decide)] at h
    simp only [Bool.or_eq_true, decide_eq_true_eq, beq_iff_eq] at h
    unfold truncated second millisecond
    rw [Moment.mk.injEq, hcount]
    omega

theorem not_mem_chars {c : Char} (hdigit : c.isDigit = false)
    (hmark : c ∉ ['-', '+', 'T', ':', '.', 'Z']) (m : Moment) : c ∉ m.chars := by
  have hpadded (width n : Nat) : c ∉ paddedDigits width n := by
    intro hmem
    rw [isDigit_of_mem_paddedDigits hmem] at hdigit
    cases hdigit
  have hyear (year : Int) : c ∉ yearDigits year := by
    unfold yearDigits
    split
    · exact hpadded 4 _
    · split <;> simp_all
  simp_all [chars, Date.chars]

end Moment

/-! ## Entries -/

def LogLevel.ofLabel? (label : List Char) : Option LogLevel :=
  [info, warn, error, debug].find? fun level => decide (level.label.toList = label)

theorem LogLevel.ofLabel?_label (level : LogLevel) : ofLabel? level.label.toList = some level := by
  cases level <;> decide +kernel

/-- What stands in a bracket, and what follows the blank behind it. -/
def readBracket (cs : List Char) : Option (List Char × List Char) :=
  match cs with
  | '[' :: cs =>
      match cs.dropWhile (· != ']') with
      | ']' :: ' ' :: rest => some (cs.takeWhile (· != ']'), rest)
      | _ => none
  | _ => none

theorem readBracket_append {inner : List Char} (h : ']' ∉ inner) (rest : List Char) :
    readBracket ('[' :: (inner ++ ']' :: ' ' :: rest)) = some (inner, rest) := by
  have hinner : ∀ c ∈ inner, (c != ']') = true := by
    intro c hc
    have hne : c ≠ ']' := fun heq => h (heq ▸ hc)
    simpa using hne
  simp [readBracket, List.takeWhile_append_of_pos hinner, List.dropWhile_append_of_pos hinner]

namespace LogEntry

def read? (line : String) : Option LogEntry := do
  let (date, behindDate) ← readBracket line.toList
  let (label, message) ← readBracket behindDate
  let moment ← Moment.read? date
  let level ← LogLevel.ofLabel? label
  some ⟨moment, level, String.ofList message⟩

/-- The brackets of a line hold its moment and its level, and the message follows them. -/
theorem read?_text (e : LogEntry) :
    read? e.text = (Moment.read? e.moment.chars).map fun m => ⟨m, e.level, e.message⟩ := by
  have hchars : e.text.toList = '[' :: (e.moment.chars ++ ']' :: ' ' ::
      '[' :: (e.level.label.toList ++ ']' :: ' ' :: e.message.toList)) := by
    simp [text]
  have hmoment : ']' ∉ e.moment.chars := e.moment.not_mem_chars rfl (by decide)
  have hlabel : ']' ∉ e.level.label.toList := by
    cases e.level <;> decide
  simp [read?, hchars, readBracket_append hmoment, readBracket_append hlabel,
    LogLevel.ofLabel?_label, Option.map_eq_bind]

theorem exists_read?_text (e : LogEntry) :
    ∃ m, read? e.text = some ⟨m, e.level, e.message⟩ ∧ m.milliseconds = e.moment.milliseconds ∧
      (e.moment.isRegular = true → m = e.moment.truncated) := by
  obtain ⟨m, hread, hsame, hregular⟩ := e.moment.exists_ofFields?
  refine ⟨m, ?_, hsame, hregular⟩
  rw [read?_text, Moment.read?_chars, hread, Option.map_some]

/--
A line of the log determines its entry.  Reading it by the calendar gives back the level, the
message and the moment to the millisecond, rounded down, before 1970 as after, and for any year.
Two entries that are written alike agree in all of these.  A leap second that ends a minute is told
from the second behind it; one that does not is written as the second behind it, and has its
milliseconds since 1970.
-/
theorem line_determines_entry :
    (∀ e : LogEntry, ∃ m, read? e.text = some ⟨m, e.level, e.message⟩ ∧
        m.milliseconds = e.moment.milliseconds ∧
        (e.moment.isRegular = true → m = e.moment.truncated)) ∧
      ∀ e e' : LogEntry, e.text = e'.text →
        e.moment.milliseconds = e'.moment.milliseconds ∧ e.level = e'.level ∧
          e.message = e'.message ∧
          (e.moment.isRegular = true → e'.moment.isRegular = true →
            e.moment.truncated = e'.moment.truncated) := by
  refine ⟨exists_read?_text, ?_⟩
  intro e e' htext
  obtain ⟨m, hread, hsame, hregular⟩ := e.exists_read?_text
  obtain ⟨m', hread', hsame', hregular'⟩ := e'.exists_read?_text
  rw [htext, hread', Option.some.injEq, LogEntry.mk.injEq] at hread
  obtain ⟨rfl, hlevel, hmessage⟩ := hread
  refine ⟨hsame.symm.trans hsame', hlevel.symm, hmessage.symm, ?_⟩
  intro h h'
  exact (hregular h).symm.trans (hregular' h')

/-- A leap second that does not end a minute. -/
def leapEntry : LogEntry :=
  ⟨⟨0, 1500000000, by decide⟩, .info, "] ["⟩

/-- An entry in the second behind it. -/
def laterEntry : LogEntry :=
  ⟨⟨1, 500000000, by decide⟩, .info, "] ["⟩

/-- The two are written alike, as they have the same milliseconds. -/
theorem text_of_leapEntry :
    leapEntry ≠ laterEntry ∧ leapEntry.text = laterEntry.text ∧
      leapEntry.moment.milliseconds = laterEntry.moment.milliseconds := by
  have htext : leapEntry.text = laterEntry.text := by decide +kernel
  exact ⟨by decide, htext, (line_determines_entry.2 leapEntry laterEntry htext).1⟩

/-- A millisecond before 1970, with a message that looks like the beginning of a line. -/
example : text ⟨⟨-1, 999999999, by decide⟩, .warn, "] [INFO] x"⟩ =
    "[1969-12-31T23:59:59.999Z] [WARN] ] [INFO] x" := by
  decide +kernel

end LogEntry
end VerifierSession
