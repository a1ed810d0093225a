import VerifierSession.Proofs.Decoding
import VerifierSession.Proofs.LineStarts

/-!
# The bytes of a document

Offsets count the bytes of a text.  Whether one is a boundary between characters, and where lines
start, can be told from the bytes alone: a byte that continues a character is in a range of its own,
and a character below 0x80 is a single byte that is part of no other.

* `encodeChar_lead` and `mem_encodeChar_iff`: the bytes of one character;
* `Snapshot.isBoundary_iff`: an offset is a boundary exactly if it is not moved back to one;
* `Snapshot.starts_eq`: the offsets behind the line feeds among the bytes are where lines start;
* `Snapshot.getElem?_last_iff`: the byte before a boundary, if it is below 0x80, is the character
  there.
-/

namespace VerifierSession

namespace Text.Utf8

/-! ## The bytes of one character -/

/-- Whether a byte is the first of a character. -/
def leads (b : UInt8) : Bool :=
  b < 0x80 || 0xC0 ≤ b

theorem leads_iff (b : UInt8) : leads b = true ↔ ¬ Within 0x80 0xBF b := by
  simp only [leads, Bool.or_eq_true, decide_eq_true_eq, UInt8.lt_iff_toNat_lt,
    UInt8.le_iff_toNat_le, UInt8.toNat_ofNat, Within]
  omega

/-- The first byte of a character does not continue one, and all the others do. -/
theorem encodeChar_lead (c : Char) :
    ∃ lead more, String.utf8EncodeChar c = lead :: more ∧
      (lead.toNat < 0x80 ∧ more = [] ∨ 0xC0 ≤ lead.toNat) ∧ ∀ b ∈ more, Within 0x80 0xBF b := by
  rcases encodeChar_cases c with
    ⟨b, hb, hascii, -⟩ | ⟨lead, value, low, high, next, more, hencode, hfirst, hnext, hmore, -⟩
  · exact ⟨b, [], hb, .inl ⟨hascii, rfl⟩, by simp⟩
  · refine ⟨lead, next :: more, hencode, .inr ?_, ?_⟩
    · rcases first_inside hfirst with ⟨h, -⟩ | ⟨h, -⟩ | ⟨h, -⟩ <;> omega
    · -- The range of the second byte may be narrower than that of the others.
      have hsecond : Within 0x80 0xBF next := by
        simp only [Within] at hnext ⊢
        rcases first_inside hfirst with ⟨-, -, rfl, rfl⟩ | ⟨-, -, rfl, rfl⟩ | ⟨-, -, rfl, rfl⟩
        · exact hnext
        · split at hnext <;> split at hnext <;> omega
        · split at hnext <;> split at hnext <;> omega
      intro b hb
      rcases List.mem_cons.1 hb with rfl | hb
      · exact hsecond
      · exact hmore b hb

/-- Of the bytes of a character only the first is the first of one. -/
theorem leads_iff_of_getElem? {c : Char} {n : Nat} {b : UInt8}
    (h : (String.utf8EncodeChar c)[n]? = some b) : leads b = true ↔ n = 0 := by
  obtain ⟨lead, more, hencode, hlead, hmore⟩ := encodeChar_lead c
  rw [hencode] at h
  rw [leads_iff]
  cases n with
  | zero =>
      cases h
      simp only [Within, iff_true]
      omega
  | succ n =>
      have hwithin := hmore b (List.mem_of_getElem? h)
      simpa using hwithin

theorem mem_encodeChar_iff {b : UInt8} (hb : b.toNat < 0x80) (c : Char) :
    b ∈ String.utf8EncodeChar c ↔ String.utf8EncodeChar c = [b] := by
  obtain ⟨lead, more, hencode, hlead, hmore⟩ := encodeChar_lead c
  rw [hencode]
  constructor
  · intro hmem
    rcases List.mem_cons.1 hmem with rfl | hmem
    · rcases hlead with ⟨-, rfl⟩ | hlead
      · rfl
      · omega
    · have hwithin := hmore b hmem
      simp only [Within] at hwithin
      omega
  · intro h
    rw [h]
    exact List.mem_singleton_self b

theorem encodeChar_inj {c c' : Char} (h : String.utf8EncodeChar c = String.utf8EncodeChar c') :
    c = c' := by
  have hread := congrArg pieces h
  have hone : ∀ c : Char, pieces (String.utf8EncodeChar c) = [some c] := by
    intro c
    simpa using pieces_flatMap [c]
  rw [hone, hone] at hread
  simpa using hread

end Text.Utf8

def encode (cs : List Char) : List UInt8 :=
  cs.flatMap String.utf8EncodeChar

theorem encode_append (xs ys : List Char) : encode (xs ++ ys) = encode xs ++ encode ys :=
  List.flatMap_append

theorem encode_cons (c : Char) (cs : List Char) :
    encode (c :: cs) = String.utf8EncodeChar c ++ encode cs :=
  List.flatMap_cons

theorem length_encode (cs : List Char) : (encode cs).length = byteLength cs := by
  induction cs with
  | nil => rfl
  | cons c cs ih =>
      rw [encode_cons, List.length_append, String.length_utf8EncodeChar, ih, byteLength]

/-- The last byte of some characters, if it is below 0x80, is their last character. -/
theorem getLast?_encode_iff (cs : List Char) {b : UInt8} {c : Char} (hb : b.toNat < 0x80)
    (hc : String.utf8EncodeChar c = [b]) :
    (encode cs).getLast? = some b ↔ cs.getLast? = some c := by
  rcases List.eq_nil_or_concat cs with rfl | ⟨before, last, hcs⟩
  · simp [encode]
  · rw [List.concat_eq_append] at hcs
    subst hcs
    obtain ⟨lead, more, hencode, -, -⟩ := Text.Utf8.encodeChar_lead last
    have hlast : (encode (before ++ [last])).getLast? = (String.utf8EncodeChar last).getLast? := by
      have hsome : (lead :: more).getLast? = some ((lead :: more).getLast (by simp)) :=
        List.getLast?_eq_some_getLast (by simp)
      simp [encode, hencode, List.getLast?_append, hsome]
    rw [hlast, List.getLast?_concat]
    constructor
    · intro h
      have hone := (Text.Utf8.mem_encodeChar_iff hb last).1 (List.mem_of_getLast? h)
      rw [Text.Utf8.encodeChar_inj (hone.trans hc.symm)]
    · intro h
      cases h
      rw [hc, List.getLast?_singleton]

/-- The line feeds among the bytes of a text are those among its characters. -/
theorem lineStartsFrom_eq (offset : Nat) (cs : List Char) :
    lineStartsFrom offset cs =
      (((encode cs).zipIdx offset).filter fun entry => entry.1 == 10).map fun entry =>
        entry.2 + 1 := by
  induction cs generalizing offset with
  | nil => rfl
  | cons c cs ih =>
      have hfeed : String.utf8EncodeChar '\n' = [10] := by decide
      rw [encode_cons, List.zipIdx_append, List.filter_append, List.map_append,
        String.length_utf8EncodeChar, ← ih]
      by_cases hc : c = '\n'
      · subst hc
        rw [hfeed, lineStartsFrom_lineFeed]
        rfl
      · have hnone : ((String.utf8EncodeChar c).zipIdx offset).filter
            (fun entry => entry.1 == 10) = [] := by
          rw [List.filter_eq_nil_iff]
          intro entry hentry heq
          have hmem : (10 : UInt8) ∈ String.utf8EncodeChar c := by
            rw [← eq_of_beq heq]
            exact List.fst_mem_of_mem_zipIdx hentry
          have hone := (Text.Utf8.mem_encodeChar_iff (by decide) c).1 hmem
          exact hc (Text.Utf8.encodeChar_inj (hone.trans hfeed.symm))
        rw [hnone, lineStartsFrom, if_neg hc]
        rfl

namespace Snapshot

variable (d : Snapshot)

def bytes : List UInt8 :=
  Text.Utf8.bytes (String.ofList d.chars)

/-- Whether a character begins at an offset or the text ends there, told by the byte there. -/
def isBoundary (offset : Nat) : Bool :=
  if offset = 0 then true
  else
    match d.bytes[offset]? with
    | none => offset == d.bytes.length
    | some b => Text.Utf8.leads b

/-- The offsets where lines start: that of the text, and those behind the line feeds. -/
def starts : List Nat :=
  0 :: (d.bytes.zipIdx.filter fun entry => entry.1 == 10).map fun entry => entry.2 + 1

theorem bytes_eq : d.bytes = encode d.chars := by
  rw [bytes, Text.Utf8.bytes_eq, String.toList_ofList, encode]

theorem length_bytes : d.bytes.length = byteLength d.chars := by
  rw [bytes_eq, length_encode]

theorem starts_eq : d.starts = d.lineStarts := by
  rw [starts, lineStarts, lineStartsFrom_eq, bytes_eq]

section Cut

variable {d} {before after : List Char} (h : d.chars = before ++ after)
include h

theorem getElem?_bytes_add (n : Nat) :
    d.bytes[byteLength before + n]? = (encode after)[n]? := by
  rw [bytes_eq, h, encode_append, ← length_encode,
    List.getElem?_append_right (Nat.le_add_right _ _), Nat.add_sub_cancel_left]

/-- The byte before a boundary, if it is below 0x80, is the character there. -/
theorem getElem?_last_iff {b : UInt8} {c : Char} (hb : b.toNat < 0x80)
    (hc : String.utf8EncodeChar c = [b]) (hpos : 0 < byteLength before) :
    d.bytes[byteLength before - 1]? = some b ↔ before.getLast? = some c := by
  have hlast : d.bytes[byteLength before - 1]? = (encode before).getLast? := by
    rw [bytes_eq, h, encode_append, List.getLast?_eq_getElem?, length_encode,
      List.getElem?_append_left (by rw [length_encode]; omega)]
  rw [hlast, getLast?_encode_iff before hb hc]

end Cut

/-- An offset is a boundary exactly if it is not moved back to one. -/
theorem isBoundary_iff (offset : Nat) :
    d.isBoundary offset = true ↔ d.floorBoundary offset = offset := by
  have hchars := (takeBytes_append_dropBytes offset d.chars).symm
  obtain ⟨n, hn⟩ := Nat.exists_eq_add_of_le (byteLength_takeBytes_le offset d.chars)
  have hbyte : d.bytes[offset]? = (encode (dropBytes offset d.chars))[n]? := by
    rw [← getElem?_bytes_add hchars, ← hn]
  have hkept : d.floorBoundary offset = offset ↔ n = 0 := by
    unfold floorBoundary
    omega
  rw [hkept]
  by_cases hzero : offset = 0
  · have hnone : n = 0 := by omega
    simp [isBoundary, hzero, hnone]
  · cases hdrop : dropBytes offset d.chars with
    | nil =>
        -- There is nothing behind the offset, so all of the text is before it.
        have hall := congrArg byteLength hchars
        rw [hdrop, List.append_nil] at hall
        have hbehind : d.bytes[offset]? = none := by
          rw [hbyte, hdrop]
          rfl
        simp only [isBoundary, if_neg hzero, hbehind, length_bytes, beq_iff_eq]
        omega
    | cons c rest =>
        -- The offset is before the end of the first character behind the cut.
        have hinside := lt_of_dropBytes_eq_cons hdrop
        have hshort : n < (String.utf8EncodeChar c).length := by
          rw [String.length_utf8EncodeChar]
          omega
        have hget := List.getElem?_eq_getElem hshort
        have hthere : d.bytes[offset]? = some (String.utf8EncodeChar c)[n] := by
          rw [hbyte, hdrop, encode_cons, List.getElem?_append_left hshort, hget]
        simp only [isBoundary, if_neg hzero, hthere]
        exact Text.Utf8.leads_iff_of_getElem? hget

theorem isBoundary_of_append {before after : List Char} (h : d.chars = before ++ after) :
    d.isBoundary (byteLength before) = true := by
  rw [isBoundary_iff, floorBoundary, h, takeBytes_byteLength]

end Snapshot
end VerifierSession
