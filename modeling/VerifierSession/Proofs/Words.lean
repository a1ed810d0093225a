import VerifierSession.Proofs.Positions

/-!
# Words in a document

The word at an offset is the longest run of word characters behind the boundary that the offset
goes back to.  Line breaks are made of other characters, so a word never reaches across one.

* `Snapshot.WordAt`: the document is cut before and behind the word at an offset;
* `Position.along_word`: going along a word stays on the line and counts its width;
* `Snapshot.wordSpanAt_covers_word`: the span that is looked up is that of the word.
-/

namespace VerifierSession

namespace Encoding

theorem units_eq_zero_iff (encoding : Encoding) (cs : List Char) :
    encoding.units cs = 0 ↔ cs = [] := by
  cases cs with
  | nil => simp [units]
  | cons c cs =>
      have hwidth := encoding.width_pos c
      simp only [units, reduceCtorEq, iff_false]
      omega

end Encoding

/-! ## Word characters and line breaks -/

theorem Text.isWordCharacter_lineFeed : Text.isWordCharacter '\n' = false := by
  decide +kernel

theorem Text.isWordCharacter_carriageReturn : Text.isWordCharacter '\r' = false := by
  decide +kernel

section Word

variable {word : List Char} (hword : ∀ c ∈ word, Text.isWordCharacter c = true)
include hword

theorem not_mem_word {c : Char} (hc : Text.isWordCharacter c = false) : c ∉ word := by
  intro hmem
  rw [hword c hmem] at hc
  cases hc

/-- A word does not end in the carriage return of a line break, so all of it has columns. -/
theorem lineContent_word (after : List Char) : lineContent word after = word := by
  have hlast : word.getLast? ≠ some '\r' := by
    intro hreturn
    exact not_mem_word hword Text.isWordCharacter_carriageReturn (List.mem_of_getLast? hreturn)
  rw [lineContent, if_neg fun h => hlast h.1]

/-- Going along a word stays on the line and counts its width. -/
theorem Position.along_word (encoding : Encoding) (after : List Char) (p : Position) :
    Position.along encoding word after p = ⟨p.line, p.character + encoding.units word⟩ := by
  have hfeed : '\n' ∉ word := not_mem_word hword Text.isWordCharacter_lineFeed
  rw [along_inside encoding hfeed, lineContent_word hword]

end Word

namespace Snapshot

/-! ## The word at an offset -/

/--
The document is cut at the boundary that an offset goes back to, which is the end for an offset
behind it, and where the word characters that follow there come to an end.
-/
structure WordAt (d : Snapshot) (offset : Nat) (before word after : List Char) : Prop where
  chars_eq : d.chars = before ++ (word ++ after)
  le_offset : byteLength before ≤ offset
  offset_lt : ∀ c rest, word ++ after = c :: rest → offset < byteLength before + c.utf8Size
  isWord : ∀ c ∈ word, Text.isWordCharacter c = true
  maximal : ∀ c, after.head? = some c → Text.isWordCharacter c = false

theorem exists_wordAt (d : Snapshot) (offset : Nat) :
    ∃ before word after, d.WordAt offset before word after := by
  refine ⟨takeBytes offset d.chars, (dropBytes offset d.chars).takeWhile Text.isWordCharacter,
    (dropBytes offset d.chars).dropWhile Text.isWordCharacter, ?_, byteLength_takeBytes_le _ _,
    ?_, ?_, ?_⟩
  · rw [List.takeWhile_append_dropWhile, takeBytes_append_dropBytes]
  · intro c rest hrest
    rw [List.takeWhile_append_dropWhile] at hrest
    exact lt_of_dropBytes_eq_cons hrest
  · exact List.all_eq_true.1 List.all_takeWhile
  · intro c hc
    have hstop := List.head?_dropWhile_not Text.isWordCharacter (dropBytes offset d.chars)
    simpa [hc] using hstop

namespace WordAt

variable {d : Snapshot} {offset : Nat} {before word after : List Char}
  (h : d.WordAt offset before word after)
include h

theorem floorBoundary_eq : d.floorBoundary offset = byteLength before :=
  (d.floorBoundary_eq_iff offset h.chars_eq).2 ⟨h.le_offset, h.offset_lt⟩

theorem wordAt_eq : d.wordAt (byteLength before) = word := by
  have hstop : after.takeWhile Text.isWordCharacter = [] := by
    cases hafter : after with
    | nil => rfl
    | cons c rest =>
        have hc := h.maximal c (by rw [hafter]; rfl)
        simp [hc]
  rw [Snapshot.wordAt, h.chars_eq, dropBytes_byteLength, List.takeWhile_append_of_pos h.isWord,
    hstop, List.append_nil]

/-- There is a word exactly if a word character stands at the boundary. -/
theorem word_eq_nil_iff :
    word = [] ↔ ∀ c, (word ++ after).head? = some c → Text.isWordCharacter c = false := by
  constructor
  · rintro rfl
    exact h.maximal
  · intro hnone
    cases hword : word with
    | nil => rfl
    | cons c rest =>
        have hc := h.isWord c (by rw [hword]; exact List.mem_cons_self)
        rw [hnone c (by rw [hword]; rfl)] at hc
        cases hc

theorem positionAt_stop (hsize : byteLength d.chars < 4294967296) :
    d.positionAt (byteLength before + byteLength word) =
      ⟨(d.positionAt (byteLength before)).line,
        (d.positionAt (byteLength before)).character + d.encoding.units word⟩ := by
  have hchars : d.chars = (before ++ word) ++ after := by rw [h.chars_eq, List.append_assoc]
  have hstart : takeBytes (byteLength before) d.chars = before := by
    rw [h.chars_eq, takeBytes_byteLength]
  have hstop : takeBytes (byteLength before + byteLength word) d.chars = before ++ word := by
    rw [← byteLength_append, hchars, takeBytes_byteLength]
  obtain ⟨between, hbetween, hlater⟩ := d.exists_positionAt_eq_along hsize
    (Nat.le_add_right (byteLength before) (byteLength word))
  -- What lies between the two boundaries is the word.
  have hword : between = word := by
    rw [hstart, hstop] at hbetween
    exact (List.append_cancel_left hbetween).symm
  rw [hlater, hword, Position.along_word h.isWord]

end WordAt

/--
Looking up a word gives exactly the longest run of word characters at the boundary that the offset
goes back to.  The span starts at the position of that boundary, stays on its line, is as wide as
the run and ends at the position behind it.  It is empty exactly if no word character stands at the
boundary, and so on both characters of a line break.
-/
theorem wordSpanAt_covers_word (d : Snapshot) (hsize : byteLength d.chars < 4294967296)
    (offset : Int) (hoffset : 0 ≤ offset) :
    (∃ before word after, d.WordAt offset.toNat before word after) ∧
      ∀ before word after, d.WordAt offset.toNat before word after →
        ∃ span, d.wordSpanAt offset = .ok span ∧
          span.start = d.positionAt (byteLength before) ∧
          span.stop = d.positionAt (byteLength before + byteLength word) ∧
          span.stop.line = span.start.line ∧
          span.stop.character = span.start.character + d.encoding.units word ∧
          (span.start = span.stop ↔
            ∀ c, (word ++ after).head? = some c → Text.isWordCharacter c = false) ∧
          ∀ c, (word ++ after).head? = some c → c = '\n' ∨ c = '\r' → span.start = span.stop := by
  refine ⟨d.exists_wordAt offset.toNat, ?_⟩
  intro before word after h
  have hle : (d.positionAt (byteLength before)).le
      (d.positionAt (byteLength before + byteLength word)) = true :=
    d.le_positionAt hsize (Nat.le_add_right _ _)
  have hstop := h.positionAt_stop hsize
  have hline : (d.positionAt (byteLength before + byteLength word)).line =
      (d.positionAt (byteLength before)).line := by rw [hstop]
  have hwidth : (d.positionAt (byteLength before + byteLength word)).character =
      (d.positionAt (byteLength before)).character + d.encoding.units word := by rw [hstop]
  have hempty : d.positionAt (byteLength before) =
      d.positionAt (byteLength before + byteLength word) ↔
        ∀ c, (word ++ after).head? = some c → Text.isWordCharacter c = false := by
    rw [← h.word_eq_nil_iff, ← d.encoding.units_eq_zero_iff, hstop]
    constructor
    · intro hsame
      have hcharacter := congrArg Position.character hsame
      simp only at hcharacter
      omega
    · intro hnone
      rw [hnone, Nat.add_zero]
  refine ⟨⟨_, _, hle⟩, ?_, rfl, rfl, hline, hwidth, hempty, ?_⟩
  · simp only [wordSpanAt, if_neg (Int.not_lt.2 hoffset), h.floorBoundary_eq, h.wordAt_eq,
      between?_of_le hle]
  · intro c hc hbreak
    refine hempty.2 ?_
    intro c' hc'
    rw [hc] at hc'
    cases hc'
    rcases hbreak with rfl | rfl
    · exact Text.isWordCharacter_lineFeed
    · exact Text.isWordCharacter_carriageReturn

/-- A word with characters of every size, right before a line break of two characters. -/
def wordText : Snapshot :=
  .ofText "a é_𝔸²\r\nb" .utf16

/-- Inside the first character of a word, on the line feed behind it, and past the end. -/
theorem wordSpanAt_of_wordText :
    byteLength wordText.chars < 4294967296 ∧
      wordText.WordAt 3 ['a', ' '] ['é', '_', '𝔸', '²'] ['\r', '\n', 'b'] ∧
      (∃ span, wordText.wordSpanAt 3 = .ok span ∧
        span.stop.character = span.start.character + 5) ∧
      (∃ span, wordText.wordSpanAt 12 = .ok span ∧ span.start = span.stop) ∧
      ∃ span, wordText.wordSpanAt 9223372036854775807 = .ok span ∧ span.start = span.stop := by
  have hsize : byteLength wordText.chars < 4294967296 := by decide +kernel
  have hword : wordText.WordAt 3 ['a', ' '] ['é', '_', '𝔸', '²'] ['\r', '\n', 'b'] := by
    refine ⟨by decide +kernel, by decide +kernel, ?_, ?_, ?_⟩
    · intro c rest h
      cases h
      decide +kernel
    · exact List.all_eq_true.mp (by decide +kernel)
    · intro c h
      cases h
      decide +kernel
  have hbreak : wordText.WordAt 12 ['a', ' ', 'é', '_', '𝔸', '²', '\r'] [] ['\n', 'b'] := by
    refine ⟨by decide +kernel, by decide +kernel, ?_, by simp, ?_⟩
    · intro c rest h
      cases h
      decide +kernel
    · intro c h
      cases h
      decide +kernel
  have hend : wordText.WordAt 9223372036854775807 wordText.chars [] [] :=
    ⟨by simp, by decide +kernel, by simp, by simp, by simp⟩
  refine ⟨hsize, hword, ?_, ?_, ?_⟩
  · obtain ⟨span, hspan, -, -, -, hwidth, -⟩ :=
      (wordSpanAt_covers_word wordText hsize 3 (by decide)).2 _ _ _ hword
    exact ⟨span, hspan, hwidth⟩
  · obtain ⟨span, hspan, -, -, -, -, -, hnone⟩ :=
      (wordSpanAt_covers_word wordText hsize 12 (by decide)).2 _ _ _ hbreak
    exact ⟨span, hspan, hnone '\n' rfl (.inl rfl)⟩
  · obtain ⟨span, hspan, -, -, -, -, hempty, -⟩ :=
      (wordSpanAt_covers_word wordText hsize 9223372036854775807 (by decide)).2 _ _ _ hend
    exact ⟨span, hspan, hempty.2 (by simp)⟩

end Snapshot
end VerifierSession
