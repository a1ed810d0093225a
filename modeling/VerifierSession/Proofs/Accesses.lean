import VerifierSession.Proofs.TextBytes
import VerifierSession.Proofs.Words

/-!
# Accesses within bounds

Positions are found by reading bytes and line starts at computed places, by cutting the text and by
subtracting.  Here each of these steps says whether it is possible: `none` stands for an index
behind the end, a cut inside a character or the wrong way round, or a difference below zero.  Every
step of every lookup is possible, in any document and for any offset.

* `back?_eq`: going back from an offset ends at a boundary before it runs out of offsets;
* `Snapshot.slice?_of_append`: a text is cut out between two of its boundaries;
* `Snapshot.exists_next`: before the start of a later line stands a line feed;
* `Snapshot.contentEnd?_eq`, `positionAt?_eq`, `span?_eq` and `wordSpanAt?_eq`: each lookup gives
  what it gives when nothing is checked;
* `Snapshot.accesses_in_bounds`: and the bounds that this rests on.
-/

namespace VerifierSession

/-- One number less another, unless it is the smaller one. -/
def minus? (a b : Nat) : Option Nat :=
  if b ≤ a then some (a - b) else none

theorem minus?_eq {a b : Nat} (h : b ≤ a) : minus? a b = some (a - b) :=
  if_pos h

namespace Snapshot

variable (d : Snapshot)

/-! ## Lookups that check every step -/

/-- Goes back from an offset to a boundary, a byte at a time. -/
def back? (offset : Nat) : Option Nat :=
  match offset with
  | 0 => if d.isBoundary 0 then some 0 else none
  | offset + 1 => if d.isBoundary (offset + 1) then some (offset + 1) else back? offset

/-- The last boundary that is not behind an offset. -/
def floorBoundary? (offset : Nat) : Option Nat :=
  d.back? (min offset d.bytes.length)

/-- The text between two offsets, if both are boundaries and the first is not the later one. -/
def slice? (start stop : Nat) : Option (List Char) :=
  if start ≤ stop ∧ d.isBoundary start = true ∧ d.isBoundary stop = true then
    some (d.slice start stop)
  else none

/-- The offset where the content of a line ends, told by the byte before its line feed. -/
def contentEnd? (line : Nat) : Option Nat :=
  match d.starts[line + 1]? with
  | none => some d.bytes.length
  | some next => do
      let newline ← minus? next 1
      let start ← d.starts[line]?
      if start < newline then
        let before ← minus? newline 1
        let last ← d.bytes[before]?
        if last = 13 then some before else some newline
      else some newline

def positionAt? (offset : Nat) : Option Position := do
  let offset ← d.floorBoundary? offset
  let line ← minus? (partitionPoint (fun start => decide (start ≤ offset)) d.starts) 1
  let start ← d.starts[line]?
  let stop ← d.contentEnd? line
  let column ← d.slice? start (min offset stop)
  some ⟨saturate line, d.encoding.measure column⟩

def span? (left right : Int) : Option (Except InvalidRange Span) :=
  if left < 0 ∨ right < 0 ∨ right < left then some (.error ⟨left, right⟩)
  else do
    let start ← d.positionAt? left.toNat
    let stop ← d.positionAt? right.toNat
    some ((Span.between? start stop).elim (.error ⟨left, right⟩) .ok)

/-- The span of the identifier that starts at an offset. -/
def wordSpanAt? (offset : Int) : Option (Except InvalidRange Span) :=
  if offset < 0 then some (.error ⟨offset, offset⟩)
  else do
    let start ← d.floorBoundary? offset.toNat
    let rest ← d.slice? start d.bytes.length
    let word := rest.takeWhile Text.isWordCharacter
    let first ← d.positionAt? start
    let last ← d.positionAt? (start + byteLength word)
    some ((Span.between? first last).elim (.error ⟨offset, offset⟩) .ok)

/-! ## Boundaries -/

theorem isBoundary_floorBoundary (offset : Nat) :
    d.isBoundary (d.floorBoundary offset) = true :=
  d.isBoundary_of_append (takeBytes_append_dropBytes offset d.chars).symm

/-- Between an offset and the boundary that it goes back to there is no other. -/
theorem floorBoundary_pred {offset : Nat} (h : d.isBoundary (offset + 1) ≠ true) :
    d.floorBoundary offset = d.floorBoundary (offset + 1) := by
  have hchars := (takeBytes_append_dropBytes (offset + 1) d.chars).symm
  have hle : d.floorBoundary (offset + 1) ≤ offset + 1 := byteLength_takeBytes_le _ _
  have hmoved : d.floorBoundary (offset + 1) ≠ offset + 1 := fun heq =>
    h ((d.isBoundary_iff _).2 heq)
  obtain ⟨-, hnext⟩ := (d.floorBoundary_eq_iff (offset + 1) hchars).1 rfl
  refine (d.floorBoundary_eq_iff offset hchars).2 ⟨?_, ?_⟩
  · have hbefore : byteLength (takeBytes (offset + 1) d.chars) = d.floorBoundary (offset + 1) := rfl
    omega
  · intro c rest hrest
    have hlt := hnext c rest hrest
    omega

/-- Going back ends at a boundary: at the latest at the start of the text. -/
theorem back?_eq (offset : Nat) : d.back? offset = some (d.floorBoundary offset) := by
  induction offset with
  | zero =>
      have hstart : d.isBoundary 0 = true := rfl
      rw [back?, if_pos hstart, (d.isBoundary_iff 0).1 hstart]
  | succ offset ih =>
      by_cases h : d.isBoundary (offset + 1) = true
      · rw [back?, if_pos h, (d.isBoundary_iff _).1 h]
      · rw [back?, if_neg h, ih, d.floorBoundary_pred h]

theorem floorBoundary?_eq (offset : Nat) :
    d.floorBoundary? offset = some (d.floorBoundary offset) := by
  rw [floorBoundary?, back?_eq, length_bytes]
  rcases Nat.le_total offset (byteLength d.chars) with h | h
  · rw [Nat.min_eq_left h]
  · rw [Nat.min_eq_right h, floorBoundary, floorBoundary, takeBytes_of_le h,
      takeBytes_of_le (Nat.le_refl _)]

theorem slice?_of_append {before between after : List Char}
    (h : d.chars = before ++ (between ++ after)) :
    d.slice? (byteLength before) (byteLength (before ++ between)) = some between := by
  have hstart := d.isBoundary_of_append h
  have hstop := d.isBoundary_of_append (h.trans (List.append_assoc before between after).symm)
  have hle : byteLength before ≤ byteLength (before ++ between) := by
    rw [byteLength_append]
    exact Nat.le_add_right _ _
  rw [slice?, if_pos ⟨hle, hstart, hstop⟩, slice, h, dropBytes_byteLength, byteLength_append,
    Nat.add_sub_cancel_left, takeBytes_byteLength]

/-- A character is cut out as a whole or not at all. -/
example :
    (ofText "é\n" .utf8).slice? 0 2 = some ['é'] ∧ (ofText "é\n" .utf8).slice? 1 2 = none := by
  decide +kernel

/-! ## Line starts -/

/-- Before the start of a later line stands a line feed. -/
theorem exists_next {line next : Nat} (h : d.lineStarts[line + 1]? = some next) :
    ∃ before after, d.chars = before ++ '\n' :: after ∧ next = byteLength before + 1 := by
  rw [lineStarts, List.getElem?_cons_succ] at h
  simpa using exists_of_mem_lineStartsFrom (List.mem_of_getElem? h)

theorem pairwise_lineStarts : d.lineStarts.Pairwise (· < ·) := by
  refine .cons ?_ (pairwise_lineStartsFrom 0 d.chars)
  intro start hstart
  exact (mem_lineStartsFrom hstart).1

theorem isBoundary_of_mem_lineStarts {start : Nat} (h : start ∈ d.lineStarts) :
    d.isBoundary start = true ∧ start ≤ d.bytes.length := by
  rcases List.mem_cons.1 h with rfl | hmem
  · exact ⟨rfl, Nat.zero_le _⟩
  · obtain ⟨before, after, hchars, rfl⟩ := exists_of_mem_lineStartsFrom hmem
    have hcut : d.chars = (before ++ ['\n']) ++ after := by
      rw [hchars, List.append_assoc, List.singleton_append]
    have hlength : 0 + byteLength before + 1 = byteLength (before ++ ['\n']) := by
      rw [byteLength_append, Nat.zero_add]
      rfl
    rw [hlength, length_bytes, hcut, byteLength_append _ after]
    exact ⟨d.isBoundary_of_append hcut, Nat.le_add_right _ _⟩

/-- What is read at the end of a line exists: its feed, and the byte before it, if it has one. -/
theorem lineEnd_in_bounds {line next : Nat} (h : d.lineStarts[line + 1]? = some next) :
    ∃ start, d.lineStarts[line]? = some start ∧ 1 ≤ next ∧ d.bytes[next - 1]? = some 10 ∧
      (start < next - 1 → 1 ≤ next - 1 ∧ next - 1 - 1 < d.bytes.length) := by
  obtain ⟨before, after, hchars, rfl⟩ := d.exists_next h
  have hlater : line + 1 < d.lineStarts.length := (List.getElem?_eq_some_iff.1 h).1
  have hline : line < d.lineStarts.length := by omega
  have hfeed : d.bytes[byteLength before]? = some 10 := by
    rw [← Nat.add_zero (byteLength before), getElem?_bytes_add hchars, encode_cons]
    rfl
  refine ⟨d.lineStarts[line], List.getElem?_eq_getElem hline, by omega, hfeed, ?_⟩
  intro hstart
  have hbehind : byteLength before < d.bytes.length := (List.getElem?_eq_some_iff.1 hfeed).1
  omega

theorem contentEnd?_eq (line : Nat) : d.contentEnd? line = some (d.contentEnd line) := by
  rw [contentEnd?, contentEnd, starts_eq]
  cases hnext : d.lineStarts[line + 1]? with
  | none => simp only [length_bytes]
  | some next =>
      obtain ⟨start, hstart, hone, -, hbounds⟩ := d.lineEnd_in_bounds hnext
      obtain ⟨before, after, hchars, rfl⟩ := d.exists_next hnext
      have hbefore : takeBytes (byteLength before) d.chars = before := by
        rw [hchars, takeBytes_byteLength]
      simp only [minus?_eq hone, Nat.add_sub_cancel] at hbounds ⊢
      simp only [hstart, List.getD_eq_getElem?_getD, hbefore, Option.bind_eq_bind,
        Option.bind_some, Option.getD_some]
      by_cases hlong : start < byteLength before
      · obtain ⟨hpos, hlast⟩ := hbounds hlong
        have hreturn := getElem?_last_iff hchars (b := 13) (c := '\r') (by decide) (by decide) hpos
        rw [List.getElem?_eq_getElem hlast, Option.some.injEq] at hreturn
        simp only [hlong, if_true, true_and, minus?_eq hpos, Option.bind_some,
          List.getElem?_eq_getElem hlast, hreturn]
        split <;> rfl
      · simp only [hlong, if_false, false_and]

/-! ## Positions -/

theorem exists_cut_at (offset : Nat) :
    ∃ head line after, d.Cut head line after ∧
      d.floorBoundary offset = byteLength (head ++ line) := by
  obtain ⟨head, line, hbefore, cut⟩ :=
    exists_cut (takeBytes_append_dropBytes offset d.chars).symm
  exact ⟨head, line, _, cut, by rw [floorBoundary, hbefore]⟩

namespace Cut

variable {d} {head line after : List Char} (cut : d.Cut head line after)
include cut

theorem getElem?_start : d.lineStarts[head.count '\n']? = some (byteLength head) := by
  have hlength : head.count '\n' < d.lineStarts.length := by
    rw [cut.lineStarts_eq, List.length_append, List.length_cons, length_lineStartsFrom]
    omega
  have hstart := cut.start_eq
  rw [List.getD_eq_getElem _ _ hlength] at hstart
  rw [List.getElem?_eq_getElem hlength, hstart]

/-- The part of a line that has columns lies between two boundaries. -/
theorem exists_column :
    ∃ rest, d.chars = head ++ (lineContent line after ++ rest) := by
  obtain ⟨rest, hrest⟩ := lineContent_isPrefix line after
  exact ⟨rest ++ after, by rw [← List.append_assoc (lineContent line after), hrest, cut.chars_eq]⟩

end Cut

theorem positionAt?_eq (offset : Nat) : d.positionAt? offset = some (d.positionAt offset) := by
  obtain ⟨head, line, after, cut, hfloor⟩ := d.exists_cut_at offset
  obtain ⟨rest, hcolumn⟩ := cut.exists_column
  rw [← d.positionAt_floorBoundary, hfloor, cut.positionAt_eq]
  simp only [positionAt?, floorBoundary?_eq, hfloor, starts_eq, cut.partitionPoint_eq,
    minus?_eq (Nat.le_add_left 1 _), Nat.add_sub_cancel, cut.getElem?_start, contentEnd?_eq,
    cut.min_contentEnd, d.slice?_of_append hcolumn, Option.bind_eq_bind, Option.bind_some]

theorem span?_eq (left right : Int) : d.span? left right = some (d.span left right) := by
  unfold span? span
  split
  · rfl
  · simp only [positionAt?_eq, Option.bind_eq_bind, Option.bind_some]
    cases Span.between? (d.positionAt left.toNat) (d.positionAt right.toNat) with
    | none => rfl
    | some span => rfl

theorem word_in_bounds (offset : Nat) :
    d.floorBoundary offset + byteLength (d.wordAt (d.floorBoundary offset)) ≤ d.bytes.length := by
  obtain ⟨before, word, after, h⟩ := d.exists_wordAt offset
  rw [h.floorBoundary_eq, h.wordAt_eq, length_bytes, h.chars_eq, byteLength_append,
    byteLength_append]
  omega

theorem wordSpanAt?_eq (offset : Int) : d.wordSpanAt? offset = some (d.wordSpanAt offset) := by
  unfold wordSpanAt? wordSpanAt
  split
  · rfl
  · obtain ⟨before, word, after, h⟩ := d.exists_wordAt offset.toNat
    have hchars : d.chars = before ++ ((word ++ after) ++ []) := by
      rw [h.chars_eq, List.append_nil]
    -- All that is behind the boundary is taken, and the word is at its front.
    have hrest : d.slice? (byteLength before) d.bytes.length = some (word ++ after) := by
      rw [length_bytes, h.chars_eq]
      exact d.slice?_of_append hchars
    have hword : d.wordAt (byteLength before) = (word ++ after).takeWhile Text.isWordCharacter := by
      rw [wordAt, h.chars_eq, dropBytes_byteLength]
    simp only [floorBoundary?_eq, h.floorBoundary_eq, hrest, hword, positionAt?_eq,
      Option.bind_eq_bind, Option.bind_some]
    generalize Span.between? _ _ = placed
    cases placed with
    | none => rfl
    | some span => rfl

/--
Lookups stay within the text and its line starts, in any document.  The line starts are those that
the bytes give; they begin with 0, increase, and are boundaries of characters.  For every offset,
also inside a character or behind the end: going back ends at a boundary, at least one line starts
no later, the line found has a start, and its columns end at a boundary that is not before it.  The
line feed that ends a line is where it is looked for, and so is the byte before it.  No word reaches
behind the text.  So every lookup that checks its steps gives what the lookup gives.
-/
theorem accesses_in_bounds :
    (d.starts = d.lineStarts ∧ d.lineStarts.head? = some 0 ∧ d.lineStarts.Pairwise (· < ·) ∧
      ∀ start ∈ d.lineStarts, d.isBoundary start = true ∧ start ≤ d.bytes.length) ∧
    (∀ offset, d.floorBoundary? offset = some (d.floorBoundary offset) ∧
      d.isBoundary (d.floorBoundary offset) = true) ∧
    (∀ line, d.contentEnd? line = some (d.contentEnd line) ∧
      ∀ next, d.lineStarts[line + 1]? = some next →
        ∃ start, d.lineStarts[line]? = some start ∧ 1 ≤ next ∧ d.bytes[next - 1]? = some 10 ∧
          (start < next - 1 → 1 ≤ next - 1 ∧ next - 1 - 1 < d.bytes.length)) ∧
    (∀ offset, d.positionAt? offset = some (d.positionAt offset) ∧
      1 ≤ partitionPoint (fun start => decide (start ≤ d.floorBoundary offset)) d.lineStarts ∧
      ∃ start stop, d.lineStarts[d.lineAt (d.floorBoundary offset)]? = some start ∧
        stop = min (d.floorBoundary offset) (d.contentEnd (d.lineAt (d.floorBoundary offset))) ∧
        start ≤ stop ∧ d.isBoundary start = true ∧ d.isBoundary stop = true) ∧
    (∀ left right, d.span? left right = some (d.span left right)) ∧
    ∀ offset, d.wordSpanAt? offset = some (d.wordSpanAt offset) ∧
      d.floorBoundary offset.toNat + byteLength (d.wordAt (d.floorBoundary offset.toNat)) ≤
        d.bytes.length := by
  refine ⟨⟨d.starts_eq, rfl, d.pairwise_lineStarts, fun _ => d.isBoundary_of_mem_lineStarts⟩,
    ?_, ?_, ?_, d.span?_eq, ?_⟩
  · exact fun offset => ⟨d.floorBoundary?_eq offset, d.isBoundary_floorBoundary offset⟩
  · exact fun line => ⟨d.contentEnd?_eq line, fun _ => d.lineEnd_in_bounds⟩
  · intro offset
    obtain ⟨head, line, after, cut, hfloor⟩ := d.exists_cut_at offset
    obtain ⟨rest, hcolumn⟩ := cut.exists_column
    refine ⟨d.positionAt?_eq offset, ?_, byteLength head,
      byteLength (head ++ lineContent line after), ?_, ?_, ?_, d.isBoundary_of_append hcolumn, ?_⟩
    · rw [hfloor, cut.partitionPoint_eq]
      exact Nat.le_add_left 1 _
    · rw [hfloor, cut.lineAt_eq, cut.getElem?_start]
    · rw [hfloor, cut.lineAt_eq, cut.min_contentEnd]
    · rw [byteLength_append]
      exact Nat.le_add_right _ _
    · exact d.isBoundary_of_append (hcolumn.trans (List.append_assoc _ _ _).symm)
  · exact fun offset => ⟨d.wordSpanAt?_eq offset, d.word_in_bounds offset.toNat⟩

/-- A line that ends with a break of two characters, and nothing behind it. -/
def breakText : Snapshot :=
  .ofText "é\r\n" .utf16

theorem break_of_breakText :
    breakText.lineStarts[1]? = some 4 ∧ breakText.bytes[3]? = some 10 ∧
      2 < breakText.bytes.length := by
  have hnext : breakText.lineStarts[1]? = some 4 := by decide
  obtain ⟨start, hstart, -, hfeed, hbefore⟩ :=
    ((accesses_in_bounds breakText).2.2.1 0).2 4 hnext
  cases hstart
  exact ⟨hnext, hfeed, (hbefore (by decide)).2⟩

end Snapshot
end VerifierSession
