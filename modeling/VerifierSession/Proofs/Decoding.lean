import VerifierSession.Text.Utf8

/-!
# Reading UTF-8

What is read from a stream of bytes, told without the reader: where a character's encoding stands
the character is read, and where none does a broken piece is, the longest one that a character could
start with or else a single byte.

* `encodeChar_cases`, `exists_encodeChar`: the encodings of characters, seen from their first byte;
* `Stands`: what the reader has read where it stands inside a character;
* `decodes_iff`: the text that is read is the text of the stream;
* `lossy_append_ascii`, `exists_of_decodes_append`: characters below 0x80 are bytes by themselves.
-/

namespace VerifierSession
namespace Text
namespace Utf8

/-! ## The bytes of one character -/

/-- The value that continuation bytes come to behind a value so far. -/
def absorb (value : Nat) (more : List UInt8) : Nat :=
  more.foldl (fun value b => value * 64 + (b.toNat - 0x80)) value

theorem absorb_cons (value : Nat) (b : UInt8) (more : List UInt8) :
    absorb value (b :: more) = absorb (value * 64 + (b.toNat - 0x80)) more := by
  rw [absorb, absorb, List.foldl_cons]

def Within (low high : Nat) (b : UInt8) : Prop :=
  low ≤ b.toNat ∧ b.toNat ≤ high

section First

variable {b : Nat}

theorem first_ascii (h : b < 0x80) : first b = ([some (Char.ofNat b)], .between) := by
  rw [first, if_pos h]

theorem first_two (h : 0xC2 ≤ b ∧ b ≤ 0xDF) :
    first b = ([], .inside (b - 0xC0) 1 0x80 0xBF) := by
  rw [first, if_neg (by omega), if_pos h]

theorem first_three (h : 0xE0 ≤ b ∧ b ≤ 0xEF) :
    first b = ([], .inside (b - 0xE0) 2 (if b = 0xE0 then 0xA0 else 0x80)
      (if b = 0xED then 0x9F else 0xBF)) := by
  rw [first, if_neg (by omega), if_neg (by omega)]
  by_cases hlow : b = 0xE0
  · simp [hlow]
  · by_cases hhigh : b = 0xED
    · simp [hhigh]
    · rw [if_neg hlow, if_neg hhigh, if_pos (by omega), if_neg hlow, if_neg hhigh]

theorem first_four (h : 0xF0 ≤ b ∧ b ≤ 0xF4) :
    first b = ([], .inside (b - 0xF0) 3 (if b = 0xF0 then 0x90 else 0x80)
      (if b = 0xF4 then 0x8F else 0xBF)) := by
  rw [first, if_neg (by omega), if_neg (by omega), if_neg (by omega), if_neg (by omega),
    if_neg (by omega)]
  by_cases hlow : b = 0xF0
  · simp [hlow]
  · by_cases hhigh : b = 0xF4
    · simp [hhigh]
    · rw [if_neg hlow, if_pos (by omega), if_neg hlow, if_neg hhigh]

theorem first_broken (h : 0x80 ≤ b ∧ b < 0xC2 ∨ 0xF4 < b) : first b = ([none], .between) := by
  rw [first, if_neg (by omega), if_neg (by omega), if_neg (by omega), if_neg (by omega),
    if_neg (by omega), if_neg (by omega), if_neg (by omega), if_neg (by omega)]

end First

theorem toNat_continuation (n : Nat) : (UInt8.ofNat (n % 64 + 128)).toNat = n % 64 + 0x80 := by
  simp
  omega

/-- A first byte is a character, or leaves bytes owed, or is broken. -/
theorem first_cases (b : Nat) :
    b < 0x80 ∨ (∃ value owed low high, first b = ([], .inside value owed low high)) ∨
      first b = ([none], .between) := by
  by_cases hascii : b < 0x80
  · exact .inl hascii
  · by_cases hbroken : 0x80 ≤ b ∧ b < 0xC2 ∨ 0xF4 < b
    · exact .inr (.inr (first_broken hbroken))
    · by_cases htwo : b ≤ 0xDF
      · exact .inr (.inl ⟨_, _, _, _, first_two (by omega)⟩)
      · by_cases hthree : b ≤ 0xEF
        · exact .inr (.inl ⟨_, _, _, _, first_three (by omega)⟩)
        · exact .inr (.inl ⟨_, _, _, _, first_four (by omega)⟩)

/-- A character is one byte, or a first byte and others in the ranges that follow from it. -/
theorem encodeChar_cases (c : Char) :
    (∃ b : UInt8, String.utf8EncodeChar c = [b] ∧ b.toNat < 0x80 ∧ c.toNat = b.toNat) ∨
      ∃ lead value low high next more,
        String.utf8EncodeChar c = lead :: next :: more ∧
        first lead.toNat = ([], .inside value (more.length + 1) low high) ∧
        Within low high next ∧ (∀ b ∈ more, Within 0x80 0xBF b) ∧
        absorb value (next :: more) = c.toNat := by
  have hvalid : c.toNat < 0xD800 ∨ 0xDFFF < c.toNat ∧ c.toNat < 0x110000 := c.valid
  have hval : c.val.toNat = c.toNat := rfl
  rw [String.utf8EncodeChar]
  simp only [hval]
  split
  · left
    refine ⟨_, rfl, ?_, ?_⟩
    · simp; omega
    · simp; omega
  · right
    split
    · refine ⟨_, c.toNat / 64, 0x80, 0xBF, _, _, rfl, ?_, ?_, ?_, ?_⟩
      · have hlead : (UInt8.ofNat (c.toNat / 64 % 32 + 192)).toNat = c.toNat / 64 + 0xC0 := by
          simp; omega
        rw [hlead, first_two (by omega), Nat.add_sub_cancel]
        rfl
      · simp [Within]; omega
      · simp
      · simp only [absorb, List.foldl_cons, List.foldl_nil, toNat_continuation, Nat.add_sub_cancel]
        omega
    · split
      · refine ⟨_, c.toNat / 4096, if c.toNat / 4096 = 0 then 0xA0 else 0x80,
          if c.toNat / 4096 = 0xD then 0x9F else 0xBF, _, _, rfl, ?_, ?_, ?_, ?_⟩
        · have hlead : (UInt8.ofNat (c.toNat / 4096 % 16 + 224)).toNat =
              c.toNat / 4096 + 0xE0 := by
            simp; omega
          have hlow : (c.toNat / 4096 + 0xE0 = 0xE0) ↔ c.toNat / 4096 = 0 := by omega
          have hhigh : (c.toNat / 4096 + 0xE0 = 0xED) ↔ c.toNat / 4096 = 0xD := by omega
          rw [hlead, first_three (by omega), Nat.add_sub_cancel]
          simp only [hlow, hhigh]
          rfl
        · simp [Within]
          split <;> split <;> omega
        · simp [Within]
          omega
        · simp only [absorb, List.foldl_cons, List.foldl_nil, toNat_continuation,
            Nat.add_sub_cancel]
          omega
      · refine ⟨_, c.toNat / 262144, if c.toNat / 262144 = 0 then 0x90 else 0x80,
          if c.toNat / 262144 = 4 then 0x8F else 0xBF, _, _, rfl, ?_, ?_, ?_, ?_⟩
        · have hlead : (UInt8.ofNat (c.toNat / 262144 % 8 + 240)).toNat =
              c.toNat / 262144 + 0xF0 := by
            simp; omega
          have hlow : (c.toNat / 262144 + 0xF0 = 0xF0) ↔ c.toNat / 262144 = 0 := by omega
          have hhigh : (c.toNat / 262144 + 0xF0 = 0xF4) ↔ c.toNat / 262144 = 4 := by omega
          rw [hlead, first_four (by omega), Nat.add_sub_cancel]
          simp only [hlow, hhigh]
          rfl
        · simp [Within]
          split <;> split <;> omega
        · simp [Within]
          omega
        · simp only [absorb, List.foldl_cons, List.foldl_nil, toNat_continuation,
            Nat.add_sub_cancel]
          omega


theorem val_ofNat {n : Nat} (h : n.isValidChar) : (Char.ofNat n).val.toNat = n := by
  have hvalid : Char.ofNat n = Char.ofNatAux n h := dif_pos h
  rw [hvalid]
  rfl

theorem encodeChar_ascii {c : Char} (h : c.toNat < 0x80) :
    String.utf8EncodeChar c = [UInt8.ofNat c.toNat] := by
  have hval : c.val.toNat = c.toNat := rfl
  rw [String.utf8EncodeChar]
  simp only [hval]
  rw [if_pos (by omega)]

section Converse

variable {lead next third last : UInt8}

theorem exists_encodeChar_two (hlead : 0xC2 ≤ lead.toNat ∧ lead.toNat ≤ 0xDF)
    (hnext : Within 0x80 0xBF next) : ∃ c, String.utf8EncodeChar c = [lead, next] := by
  simp only [Within] at hnext
  obtain ⟨n, hn⟩ : ∃ n, n = (lead.toNat - 0xC0) * 64 + (next.toNat - 0x80) := ⟨_, rfl⟩
  have hvalid : n.isValidChar := .inl (by omega)
  have hfirst : n / 64 % 32 + 192 = lead.toNat := by omega
  have hsecond : n % 64 + 128 = next.toNat := by omega
  refine ⟨Char.ofNat n, ?_⟩
  rw [String.utf8EncodeChar]
  simp only [val_ofNat hvalid]
  rw [if_neg (by omega), if_pos (by omega), hfirst, hsecond]
  simp only [UInt8.ofNat_toNat]

theorem exists_encodeChar_three (hlead : 0xE0 ≤ lead.toNat ∧ lead.toNat ≤ 0xEF)
    (hnext : Within (if lead.toNat = 0xE0 then 0xA0 else 0x80)
      (if lead.toNat = 0xED then 0x9F else 0xBF) next) (hlast : Within 0x80 0xBF last) :
    ∃ c, String.utf8EncodeChar c = [lead, next, last] := by
  simp only [Within] at hnext hlast
  obtain ⟨n, hn⟩ : ∃ n, n = ((lead.toNat - 0xE0) * 64 + (next.toNat - 0x80)) * 64 +
    (last.toNat - 0x80) := ⟨_, rfl⟩
  have hsecond : 0x80 ≤ next.toNat ∧ next.toNat ≤ 0xBF := by
    split at hnext <;> split at hnext <;> omega
  -- The first range keeps shorter characters out, and the second one surrogates.
  have hlong : 0x800 ≤ n := by
    split at hnext <;> omega
  have hvalid : n.isValidChar := by
    simp only [Nat.isValidChar]
    split at hnext <;> split at hnext <;> omega
  have hfirst : n / 4096 % 16 + 224 = lead.toNat := by omega
  have hmid : n / 64 % 64 + 128 = next.toNat := by omega
  have hend : n % 64 + 128 = last.toNat := by omega
  refine ⟨Char.ofNat n, ?_⟩
  rw [String.utf8EncodeChar]
  simp only [val_ofNat hvalid]
  rw [if_neg (by omega), if_neg (by omega), if_pos (by omega), hfirst, hmid, hend]
  simp only [UInt8.ofNat_toNat]

theorem exists_encodeChar_four (hlead : 0xF0 ≤ lead.toNat ∧ lead.toNat ≤ 0xF4)
    (hnext : Within (if lead.toNat = 0xF0 then 0x90 else 0x80)
      (if lead.toNat = 0xF4 then 0x8F else 0xBF) next)
    (hthird : Within 0x80 0xBF third) (hlast : Within 0x80 0xBF last) :
    ∃ c, String.utf8EncodeChar c = [lead, next, third, last] := by
  simp only [Within] at hnext hthird hlast
  obtain ⟨n, hn⟩ : ∃ n, n = (((lead.toNat - 0xF0) * 64 + (next.toNat - 0x80)) * 64 +
    (third.toNat - 0x80)) * 64 + (last.toNat - 0x80) := ⟨_, rfl⟩
  have hsecond : 0x80 ≤ next.toNat ∧ next.toNat ≤ 0xBF := by
    split at hnext <;> split at hnext <;> omega
  -- The first range keeps shorter characters out, and the second one too large values.
  have hlong : 0x10000 ≤ n := by
    split at hnext <;> omega
  have hsmall : n < 0x110000 := by
    split at hnext <;> split at hnext <;> omega
  have hvalid : n.isValidChar := .inr (by omega)
  have hfirst : n / 262144 % 8 + 240 = lead.toNat := by omega
  have hmid : n / 4096 % 64 + 128 = next.toNat := by omega
  have hmore : n / 64 % 64 + 128 = third.toNat := by omega
  have hend : n % 64 + 128 = last.toNat := by omega
  refine ⟨Char.ofNat n, ?_⟩
  rw [String.utf8EncodeChar]
  simp only [val_ofNat hvalid]
  rw [if_neg (by omega), if_neg (by omega), if_neg (by omega), hfirst, hmid, hmore, hend]
  simp only [UInt8.ofNat_toNat]

/-- A first byte that leaves bytes owed is the first of two, three or four. -/
theorem first_inside {b value owed low high : Nat}
    (h : first b = ([], .inside value owed low high)) :
    ((0xC2 ≤ b ∧ b ≤ 0xDF) ∧ owed = 1 ∧ low = 0x80 ∧ high = 0xBF) ∨
      ((0xE0 ≤ b ∧ b ≤ 0xEF) ∧ owed = 2 ∧ low = (if b = 0xE0 then 0xA0 else 0x80) ∧
        high = if b = 0xED then 0x9F else 0xBF) ∨
      ((0xF0 ≤ b ∧ b ≤ 0xF4) ∧ owed = 3 ∧ low = (if b = 0xF0 then 0x90 else 0x80) ∧
        high = if b = 0xF4 then 0x8F else 0xBF) := by
  by_cases htwo : 0xC2 ≤ b ∧ b ≤ 0xDF
  · simp only [first_two htwo, Prod.mk.injEq, Pending.inside.injEq, true_and] at h
    exact .inl ⟨htwo, h.2.1.symm, h.2.2.1.symm, h.2.2.2.symm⟩
  · by_cases hthree : 0xE0 ≤ b ∧ b ≤ 0xEF
    · simp only [first_three hthree, Prod.mk.injEq, Pending.inside.injEq, true_and] at h
      exact .inr (.inl ⟨hthree, h.2.1.symm, h.2.2.1.symm, h.2.2.2.symm⟩)
    · by_cases hfour : 0xF0 ≤ b ∧ b ≤ 0xF4
      · simp only [first_four hfour, Prod.mk.injEq, Pending.inside.injEq, true_and] at h
        exact .inr (.inr ⟨hfour, h.2.1.symm, h.2.2.1.symm, h.2.2.2.symm⟩)
      · by_cases hascii : b < 0x80
        · simp [first_ascii hascii] at h
        · simp [first_broken (show 0x80 ≤ b ∧ b < 0xC2 ∨ 0xF4 < b by omega)] at h

/-- What a first byte leaves owed is completed by bytes in the ranges that it sets. -/
theorem exists_encodeChar {more : List UInt8} {value owed low high : Nat}
    (hlead : first lead.toNat = ([], .inside value owed low high))
    (hnext : Within low high next) (howed : more.length + 1 = owed)
    (hmore : ∀ b ∈ more, Within 0x80 0xBF b) :
    ∃ c, String.utf8EncodeChar c = lead :: next :: more := by
  rcases first_inside hlead with
    ⟨htwo, rfl, rfl, rfl⟩ | ⟨hthree, rfl, rfl, rfl⟩ | ⟨hfour, rfl, rfl, rfl⟩
  · obtain rfl : more = [] := List.length_eq_zero_iff.mp (by omega)
    exact exists_encodeChar_two htwo hnext
  · obtain ⟨last, rfl⟩ := List.length_eq_one_iff.mp (show more.length = 1 by omega)
    exact exists_encodeChar_three hthree hnext (hmore last (by simp))
  · match more, howed with
    | [third, last], _ =>
        exact exists_encodeChar_four hfour hnext (hmore third (by simp)) (hmore last (by simp))

end Converse

/-! ## Reading a character -/

/-- Bytes in range complete a character, whatever follows. -/
theorem piecesFrom_inside (bs : List UInt8) (value low high : Nat) {next : UInt8}
    {more : List UInt8} (hnext : Within low high next) (hmore : ∀ b ∈ more, Within 0x80 0xBF b) :
    piecesFrom (.inside value (more.length + 1) low high) (next :: more ++ bs) =
      some (Char.ofNat (absorb value (next :: more))) :: pieces bs := by
  induction more generalizing value low high next with
  | nil =>
      simp [piecesFrom, step, hnext.1, hnext.2, absorb, pieces]
  | cons b more ih =>
      have hrest := ih (value * 64 + (next.toNat - 0x80)) 0x80 0xBF (hmore b List.mem_cons_self)
        fun b hb => hmore b (List.mem_cons_of_mem _ hb)
      have hstep : step (.inside value ((b :: more).length + 1) low high) next.toNat =
          ([], .inside (value * 64 + (next.toNat - 0x80)) (more.length + 1) 0x80 0xBF) := by
        simp [step, hnext.1, hnext.2]
      rw [absorb_cons, List.cons_append, piecesFrom, hstep]
      exact hrest

theorem pieces_encodeChar (c : Char) (bs : List UInt8) :
    pieces (String.utf8EncodeChar c ++ bs) = some c :: pieces bs := by
  rcases encodeChar_cases c with
    ⟨b, hencode, hascii, hvalue⟩ |
      ⟨lead, value, low, high, next, more, hencode, hlead, hnext, hmore, hvalue⟩
  · rw [hencode, pieces, List.singleton_append, piecesFrom, step, first_ascii hascii, ← hvalue,
      Char.ofNat_toNat]
    rfl
  · rw [hencode, pieces, List.cons_append, piecesFrom, step, hlead]
    have hinside := piecesFrom_inside bs value low high hnext hmore
    rw [hvalue, Char.ofNat_toNat] at hinside
    exact hinside

/-! ## Maximal broken pieces -/

/-- Some character's encoding starts with the bytes. -/
def Begins (bytes : List UInt8) : Prop :=
  ∃ c, bytes <+: String.utf8EncodeChar c

/--
A piece of a stream that is one replacement character: no character starts there, and the piece is
the longest one that a character could start with, or a single byte.
-/
structure Broken (piece rest : List UInt8) : Prop where
  nonempty : piece ≠ []
  noChar (c : Char) : ¬ String.utf8EncodeChar c <+: piece ++ rest
  begins : Begins piece ∨ piece.length = 1
  maximal {longer : List UInt8} : longer <+: rest → longer ≠ [] → ¬ Begins (piece ++ longer)

/-- A text of a stream: its characters, and one replacement character for each broken piece. -/
inductive Decodes : List UInt8 → List Char → Prop where
  | nil : Decodes [] []
  | char (c : Char) {rest : List UInt8} {text : List Char} :
      Decodes rest text → Decodes (String.utf8EncodeChar c ++ rest) (c :: text)
  | broken {piece rest : List UInt8} {text : List Char} :
      Broken piece rest → Decodes rest text → Decodes (piece ++ rest) ('\uFFFD' :: text)

theorem Begins.of_prefix {bytes longer : List UInt8} (h : Begins longer)
    (hshort : bytes <+: longer) : Begins bytes := by
  rcases h with ⟨c, hc⟩
  exact ⟨c, hshort.trans hc⟩

/-- No broken piece is read where a character stands. -/
theorem not_prefix_of_pieces {bs : List UInt8} {settled : List (Option Char)}
    (h : pieces bs = none :: settled) (c : Char) : ¬ String.utf8EncodeChar c <+: bs := by
  rintro ⟨rest, rfl⟩
  rw [pieces_encodeChar] at h
  cases h

/-- Bytes behind which a broken piece is read, whatever follows, begin no character. -/
theorem not_begins_of_pieces {read : List UInt8}
    (h : ∀ bs, ∃ settled, pieces (read ++ bs) = none :: settled) : ¬ Begins read := by
  rintro ⟨c, rest, hrest⟩
  obtain ⟨settled, hsettled⟩ := h rest
  rw [hrest] at hsettled
  exact not_prefix_of_pieces hsettled c List.prefix_rfl

theorem Broken.of_not_begins {read bs : List UInt8} {b : UInt8} (hread : read ≠ [])
    (hbegins : Begins read ∨ read.length = 1) (hb : ¬ Begins (read ++ [b]))
    {settled : List (Option Char)} (hpieces : pieces (read ++ b :: bs) = none :: settled) :
    Broken read (b :: bs) where
  nonempty := hread
  noChar := not_prefix_of_pieces hpieces
  begins := hbegins
  maximal := by
    intro longer hlonger hnonempty hall
    cases longer with
    | nil => exact hnonempty rfl
    | cons b' longer =>
        obtain ⟨rfl, -⟩ := List.cons_prefix_cons.mp hlonger
        exact hb (hall.of_prefix (List.prefix_append_right_inj read |>.mpr (by simp)))

/-- Where the reader stands inside a character, and what it has read of it. -/
structure Stands (read : List UInt8) (value owed low high : Nat) : Prop where
  nonempty : read ≠ []
  owes : 0 < owed
  range : 0x80 ≤ low ∧ low ≤ high ∧ high ≤ 0xBF
  reads (bs : List UInt8) : pieces (read ++ bs) = piecesFrom (.inside value owed low high) bs
  completes (next : UInt8) (more : List UInt8) : Within low high next →
    more.length + 1 = owed → (∀ b ∈ more, Within 0x80 0xBF b) →
    ∃ c, String.utf8EncodeChar c = read ++ next :: more

namespace Stands

variable {read : List UInt8} {value owed low high : Nat}

theorem begins (h : Stands read value owed low high) : Begins read := by
  have hlow := h.range
  have hnext : Within low high (UInt8.ofNat low) := by
    simp [Within]
    omega
  have hlength : (List.replicate (owed - 1) (0x80 : UInt8)).length + 1 = owed := by
    rw [List.length_replicate]
    exact Nat.sub_add_cancel h.owes
  obtain ⟨c, hc⟩ := h.completes _ _ hnext hlength fun b hb => by
    rw [List.eq_of_mem_replicate hb]
    exact ⟨by decide, by decide⟩
  exact ⟨c, hc ▸ List.prefix_append _ _⟩

theorem of_first {lead : UInt8} (h : first lead.toNat = ([], .inside value owed low high)) :
    Stands [lead] value owed low high where
  nonempty := by simp
  owes := by
    rcases first_inside h with ⟨-, rfl, -⟩ | ⟨-, rfl, -⟩ | ⟨-, rfl, -⟩ <;> decide
  range := by
    rcases first_inside h with ⟨-, -, rfl, rfl⟩ | ⟨-, -, rfl, rfl⟩ | ⟨-, -, rfl, rfl⟩
    · decide
    · split <;> split <;> omega
    · split <;> split <;> omega
  reads := by
    intro bs
    rw [List.singleton_append, pieces, piecesFrom, step, h]
    rfl
  completes := fun _ _ => exists_encodeChar h

/-- A byte in range is read on, and leaves one fewer owed. -/
theorem read_next (h : Stands read value owed low high) {next : UInt8}
    (hnext : Within low high next) (howed : 1 < owed) :
    Stands (read ++ [next]) (value * 64 + (next.toNat - 0x80)) (owed - 1) 0x80 0xBF where
  nonempty := by simp
  owes := by omega
  range := by decide
  reads := by
    intro bs
    have hmore : ¬ owed ≤ 1 := by omega
    rw [List.append_assoc, h.reads]
    simp [piecesFrom, step, hnext.1, hnext.2, hmore]
  completes := by
    intro next' more hnext' hmore hall
    have hinner (b : UInt8) (hb : b ∈ next' :: more) : Within 0x80 0xBF b := by
      rcases List.mem_cons.mp hb with rfl | hb
      · exact hnext'
      · exact hall b hb
    obtain ⟨c, hc⟩ := h.completes next (next' :: more) hnext (by simp; omega) hinner
    exact ⟨c, by simp [hc]⟩

theorem pieces_of_not_within (h : Stands read value owed low high) {b : UInt8}
    (hb : ¬ Within low high b) (bs : List UInt8) :
    pieces (read ++ b :: bs) = none :: pieces (b :: bs) := by
  have hout : ¬ (low ≤ b.toNat ∧ b.toNat ≤ high) := hb
  rw [h.reads, pieces, piecesFrom, piecesFrom]
  simp only [step, if_neg hout]
  rfl

end Stands

/-! ## Streams -/

/-- A stream starts with a character or with a broken piece, and is read on behind it. -/
def StartsWell (bs : List UInt8) : Prop :=
  (∃ c rest, bs = String.utf8EncodeChar c ++ rest ∧ pieces bs = some c :: pieces rest) ∨
    ∃ piece rest, bs = piece ++ rest ∧ Broken piece rest ∧ pieces bs = none :: pieces rest

theorem startsWell_encodeChar (c : Char) (rest : List UInt8) :
    StartsWell (String.utf8EncodeChar c ++ rest) :=
  .inl ⟨c, rest, rfl, pieces_encodeChar c rest⟩

theorem Stands.startsWell {read : List UInt8} {value owed low high : Nat}
    (h : Stands read value owed low high) (bs : List UInt8) : StartsWell (read ++ bs) := by
  -- By induction on what follows; what was read grows with every byte in range.
  induction bs generalizing read value owed low high with
  | nil =>
      have hpieces : pieces (read ++ []) = none :: pieces [] := h.reads []
      have hbroken : Broken read [] :=
        ⟨h.nonempty, not_prefix_of_pieces hpieces, .inl h.begins, fun hlonger hnonempty =>
          absurd (List.prefix_nil.mp hlonger) hnonempty⟩
      exact .inr ⟨read, [], rfl, hbroken, hpieces⟩
  | cons b bs ih =>
      by_cases hb : Within low high b
      · by_cases howed : 1 < owed
        · have hrest := ih (h.read_next hb howed)
          rwa [List.append_assoc] at hrest
        · have hlast := h.owes
          obtain ⟨c, hc⟩ := h.completes b [] hb (by simp; omega) (by simp)
          have hwhole : read ++ b :: bs = String.utf8EncodeChar c ++ bs := by simp [hc]
          rw [hwhole]
          exact startsWell_encodeChar c bs
      · -- No character goes on like this, as it would be read behind the same bytes.
        have hpieces := h.pieces_of_not_within hb
        have hnone : ¬ Begins (read ++ [b]) := not_begins_of_pieces fun bs =>
          ⟨_, by rw [List.append_assoc]; exact hpieces bs⟩
        exact .inr ⟨read, b :: bs, rfl,
          .of_not_begins h.nonempty (.inl h.begins) hnone (hpieces bs), hpieces bs⟩

theorem startsWell_cons (b : UInt8) (bs : List UInt8) : StartsWell (b :: bs) := by
  rcases first_cases b.toNat with hascii | ⟨value, owed, low, high, hfirst⟩ | hbroken
  · have hto : (Char.ofNat b.toNat).toNat = b.toNat := val_ofNat (.inl (by omega))
    have hchar := startsWell_encodeChar (Char.ofNat b.toNat) bs
    rwa [encodeChar_ascii (by omega), hto, UInt8.ofNat_toNat] at hchar
  · exact (Stands.of_first hfirst).startsWell bs
  · have hpieces (bs : List UInt8) : pieces ([b] ++ bs) = none :: pieces bs := by
      rw [List.singleton_append, pieces, piecesFrom, step, hbroken]
      rfl
    refine .inr ⟨[b], bs, rfl, ?_, hpieces bs⟩
    have hnone : ¬ Begins [b] := not_begins_of_pieces fun bs => ⟨_, hpieces bs⟩
    refine ⟨by simp, not_prefix_of_pieces (hpieces bs), .inr rfl, ?_⟩
    intro longer hlonger hnonempty hall
    exact hnone (hall.of_prefix (List.prefix_append _ _))

/-- What is read is a text of the stream. -/
theorem decodes_lossy (bs : List UInt8) : Decodes bs (lossy bs) := by
  induction hn : bs.length using Nat.strongRecOn generalizing bs with
  | ind n ih =>
      subst hn
      cases bs with
      | nil => exact .nil
      | cons b bs =>
          rcases startsWell_cons b bs with
            ⟨c, rest, hbs, hpieces⟩ | ⟨piece, rest, hbs, hbroken, hpieces⟩
          · have hshorter : rest.length < (b :: bs).length := by
              have hpos := String.length_utf8EncodeChar c
              have hsize := c.utf8Size_pos
              simp only [hbs, List.length_append]
              omega
            have htext : lossy (b :: bs) = c :: lossy rest := by simp [lossy, hpieces]
            rw [htext, hbs]
            exact .char c (ih _ hshorter rest rfl)
          · have hshorter : rest.length < (b :: bs).length := by
              have hpos := List.length_pos_iff.mpr hbroken.nonempty
              simp only [hbs, List.length_append]
              omega
            have htext : lossy (b :: bs) = '\uFFFD' :: lossy rest := by simp [lossy, hpieces]
            rw [htext, hbs]
            exact .broken hbroken (ih _ hshorter rest rfl)

/-- Where a broken piece ends is settled by what stands there. -/
theorem Broken.length_le {piece rest piece' rest' : List UInt8} (h : Broken piece rest)
    (h' : Broken piece' rest') (heq : piece ++ rest = piece' ++ rest') :
    piece'.length ≤ piece.length := by
  rcases List.append_eq_append_iff.mp heq with ⟨longer, hpiece', hrest⟩ | ⟨shorter, hpiece, -⟩
  · by_cases hlonger : longer = []
    · simp [hpiece', hlonger]
    · rcases h'.begins with hbegins | hone
      · rw [hpiece'] at hbegins
        exact absurd hbegins (h.maximal ⟨rest', hrest.symm⟩ hlonger)
      · exact hone ▸ List.length_pos_iff.mpr h.nonempty
  · simp [hpiece]

theorem Broken.lossy_append {piece rest : List UInt8} (h : Broken piece rest) :
    lossy (piece ++ rest) = '\uFFFD' :: lossy rest := by
  cases hbs : piece ++ rest with
  | nil => exact absurd (List.append_eq_nil_iff.mp hbs).1 h.nonempty
  | cons b bs =>
      rcases startsWell_cons b bs with
        ⟨c, rest', hchar, -⟩ | ⟨piece', rest', hbroken, h', hpieces⟩
      · exact absurd ⟨rest', by rw [hbs, hchar]⟩ (h.noChar c)
      · have heq : piece ++ rest = piece' ++ rest' := hbs.trans hbroken
        have hlength := Nat.le_antisymm (h'.length_le h heq.symm) (h.length_le h' heq)
        obtain ⟨-, rfl⟩ := List.append_inj heq hlength
        simp [lossy, hpieces]

theorem lossy_encodeChar_append (c : Char) (bs : List UInt8) :
    lossy (String.utf8EncodeChar c ++ bs) = c :: lossy bs := by
  simp [lossy, pieces_encodeChar]

/-- A stream has one text, the one that is read. -/
theorem decodes_iff {bs : List UInt8} {text : List Char} : Decodes bs text ↔ lossy bs = text := by
  constructor
  · intro h
    induction h with
    | nil => rfl
    | char c _ ih => rw [lossy_encodeChar_append, ih]
    | broken hbroken _ ih => rw [hbroken.lossy_append, ih]
  · intro h
    exact h ▸ decodes_lossy bs

/-! ## Text without broken pieces -/

theorem toList_loop (bs : ByteArray) (i : Nat) (read : List UInt8) :
    ByteArray.toList.loop bs i read = read.reverse ++ bs.data.toList.drop i := by
  fun_induction ByteArray.toList.loop bs i read with
  | case1 i read hi ih =>
      have hsize : i < bs.data.toList.length := hi
      have hget : bs.get! i = bs.data.toList[i] := getElem!_pos bs.data i hi
      rw [ih, List.drop_eq_getElem_cons hsize, hget, List.reverse_cons, List.append_assoc]
      rfl
  | case2 i read hi =>
      have hsize : bs.data.toList.length ≤ i := Nat.le_of_not_lt hi
      rw [List.drop_eq_nil_of_le hsize, List.append_nil]

theorem bytes_eq (s : String) : bytes s = s.toList.flatMap String.utf8EncodeChar := by
  rw [bytes, String.toUTF8_eq_toByteArray, ← String.utf8Encode_toList, List.utf8Encode,
    ByteArray.toList, toList_loop, List.data_toByteArray]
  rfl

theorem pieces_flatMap (cs : List Char) :
    pieces (cs.flatMap String.utf8EncodeChar) = cs.map some := by
  induction cs with
  | nil => rfl
  | cons c cs ih => rw [List.flatMap_cons, pieces_encodeChar, ih, List.map_cons]

theorem lossy_bytes (s : String) : lossy (bytes s) = s.toList := by
  rw [lossy, bytes_eq, pieces_flatMap, List.map_map]
  exact List.map_id' s.toList

theorem eq_flatMap_of_pieces {cs : List Char} {bs : List UInt8} (h : pieces bs = cs.map some) :
    bs = cs.flatMap String.utf8EncodeChar := by
  induction cs generalizing bs with
  | nil =>
      cases bs with
      | nil => rfl
      | cons b bs =>
          rcases startsWell_cons b bs with ⟨c, rest, -, hpieces⟩ | ⟨piece, rest, -, -, hpieces⟩
          · simp [hpieces] at h
          · simp [hpieces] at h
  | cons c cs ih =>
      cases bs with
      | nil => cases h
      | cons b bs =>
          rcases startsWell_cons b bs with ⟨c', rest, hbs, hpieces⟩ | ⟨piece, rest, -, -, hpieces⟩
          · simp only [hpieces, List.map_cons, List.cons.injEq, Option.some.injEq] at h
            rw [hbs, h.1, List.flatMap_cons, ← ih h.2]
          · simp [hpieces] at h

theorem mapM_id_eq_some {xs : List (Option Char)} {cs : List Char} :
    xs.mapM id = some cs ↔ xs = cs.map some := by
  induction xs generalizing cs with
  | nil => cases cs <;> simp
  | cons x xs ih =>
      cases x with
      | none => cases cs <;> simp
      | some c =>
          cases cs with
          | nil => simp [Option.bind_eq_some_iff]
          | cons c' cs =>
              simp [Option.bind_eq_some_iff, ih]
              exact and_comm

/-- A stream that has a text without replacements is the bytes of it. -/
theorem text?_eq_some_iff {bs : List UInt8} {s : String} :
    text? bs = some s.toList ↔ bs = bytes s := by
  rw [text?, mapM_id_eq_some, bytes_eq]
  constructor
  · exact eq_flatMap_of_pieces
  · rintro rfl
    exact pieces_flatMap _

/-! ## ASCII -/

/-- No byte below 0x80 goes on with a character. -/
def Pending.Proper : Pending → Prop
  | .between => True
  | .inside _ _ low _ => 0x80 ≤ low

theorem first_proper (b : UInt8) : (first b.toNat).2.Proper := by
  rcases first_cases b.toNat with hascii | ⟨value, owed, low, high, hfirst⟩ | hbroken
  · rw [first_ascii hascii]
    trivial
  · rw [hfirst]
    exact (Stands.of_first hfirst).range.1
  · rw [hbroken]
    trivial

theorem step_proper (p : Pending) (b : UInt8) : (step p b.toNat).2.Proper := by
  cases p with
  | between => exact first_proper b
  | inside value owed low high =>
      by_cases hb : low ≤ b.toNat ∧ b.toNat ≤ high
      · by_cases howed : owed ≤ 1
        · simp only [step, hb, howed, and_self, if_true]
          trivial
        · simp only [step, hb, howed, and_self, if_true, if_false]
          exact Nat.le_refl _
      · simp only [step, if_neg hb]
        exact first_proper b

theorem piecesFrom_append_ascii {p : Pending} (hp : p.Proper) (before : List UInt8) {b : UInt8}
    (hb : b.toNat < 0x80) (after : List UInt8) :
    piecesFrom p (before ++ b :: after) =
      piecesFrom p before ++ some (Char.ofNat b.toNat) :: pieces after := by
  induction before generalizing p with
  | nil =>
      cases p with
      | between => simp [piecesFrom, step, first_ascii hb, pieces]
      | inside value owed low high =>
          -- The byte breaks the character off.
          have hlow : 0x80 ≤ low := hp
          have hout : ¬ low ≤ b.toNat := by omega
          simp [piecesFrom, step, first_ascii hb, hout, pieces]
  | cons b' before ih =>
      rw [List.cons_append, piecesFrom, piecesFrom]
      simp only [ih (step_proper p b'), List.append_assoc]

/-- A byte below 0x80 is a character by itself wherever it stands. -/
theorem lossy_append_ascii (before : List UInt8) {b : UInt8} (hb : b.toNat < 0x80)
    (after : List UInt8) :
    lossy (before ++ b :: after) = lossy before ++ Char.ofNat b.toNat :: lossy after := by
  simp [lossy, pieces, piecesFrom_append_ascii (p := .between) trivial before hb after]

theorem eq_nil_of_decodes {bs : List UInt8} (h : Decodes bs []) : bs = [] := by
  cases h with
  | nil => rfl

/-- A character below 0x80 is read from a byte, and what follows it from what follows the byte. -/
theorem exists_of_decodes_append {bs : List UInt8} {before after : List Char} {c : Char}
    (hc : c.toNat < 0x80) (h : Decodes bs (before ++ c :: after)) :
    ∃ bs' b bs'', bs = bs' ++ b :: bs'' ∧ b.toNat = c.toNat ∧ Decodes bs'' after := by
  induction before generalizing bs with
  | nil =>
      rw [List.nil_append] at h
      cases h with
      | @char _ rest _ hrest =>
          refine ⟨[], UInt8.ofNat c.toNat, rest, ?_, ?_, hrest⟩
          · rw [encodeChar_ascii hc]
            rfl
          · simp; omega
      | broken hbroken hrest => simp at hc
  | cons first before ih =>
      cases h with
      | char _ hrest =>
          obtain ⟨bs', b, bs'', hbs, hb, hafter⟩ := ih hrest
          exact ⟨_ ++ bs', b, bs'', by rw [hbs, List.append_assoc], hb, hafter⟩
      | broken _ hrest =>
          obtain ⟨bs', b, bs'', hbs, hb, hafter⟩ := ih hrest
          exact ⟨_ ++ bs', b, bs'', by rw [hbs, List.append_assoc], hb, hafter⟩

end Utf8
end Text
end VerifierSession
