import Mathlib.Data.List.GetD
import VerifierSession.Proofs.Boundaries

/-!
# Lines of a document

A cut through a document leaves whole lines before it, then the part of a line, then the rest.  The
line that the cut falls on is found among the offsets where lines start.

* `partitionPoint_append`: halving finds the border in a list whose elements meet a test first and
  fail it afterwards, as sorted offsets do (`mem_lineStartsFrom`);
* `Snapshot.Cut`: whole lines, the part of a line, and the rest;
* `Cut.lineAt_eq`, `Cut.start_eq` and `Cut.min_contentEnd`: the line, its start, and where the
  columns that are counted end, which is before the carriage return of a line break;
* `Cut.positionAt_eq`: the position is the number of line feeds before the cut and the width of the
  part of the line.
-/

namespace VerifierSession

/-! ## Halving -/

theorem narrow_eq {test : Nat → Bool} {xs : List Nat} {k : Nat}
    (htest : ∀ i (h : i < xs.length), test xs[i] = true ↔ i < k) {base size : Nat}
    (hbase : base = 0 ∨ base < k) (hk : k ≤ base + size) (hsize : 0 < size)
    (hlength : base + size ≤ xs.length) : narrow test xs base size = k - 1 := by
  -- The border stays within the stretch, which gets shorter.
  induction size using Nat.strongRecOn generalizing base with
  | ind size ih =>
      by_cases hone : size ≤ 1
      · rw [narrow, if_pos hone]
        omega
      · have hmiddle : base + size / 2 < xs.length := by omega
        have hget : xs.getD (base + size / 2) 0 = xs[base + size / 2] :=
          List.getD_eq_getElem _ _ hmiddle
        have hborder := htest (base + size / 2) hmiddle
        rw [narrow, if_neg hone]
        simp only [hget]
        by_cases hlow : test xs[base + size / 2] = true
        · rw [if_pos hlow]
          exact ih _ (by omega) (.inr (hborder.1 hlow)) (by omega) (by omega) (by omega)
        · have hhigh : k ≤ base + size / 2 := Nat.not_lt.1 fun h => hlow (hborder.2 h)
          rw [if_neg hlow]
          exact ih _ (by omega) hbase (by omega) (by omega) (by omega)

theorem partitionPoint_append {test : Nat → Bool} {xs ys : List Nat}
    (hxs : ∀ x ∈ xs, test x = true) (hys : ∀ y ∈ ys, test y = false) :
    partitionPoint test (xs ++ ys) = xs.length := by
  have htest : ∀ i (h : i < (xs ++ ys).length), test (xs ++ ys)[i] = true ↔ i < xs.length := by
    intro i h
    by_cases hi : i < xs.length
    · simp [hi, List.getElem_append_left hi, hxs]
    · simp [hi, List.getElem_append_right (Nat.not_lt.1 hi), hys]
  by_cases hempty : xs ++ ys = []
  · have hnil : xs = [] := (List.append_eq_nil_iff.1 hempty).1
    rw [hempty, hnil]
    rfl
  · have hpos := List.length_pos_iff.2 hempty
    have hlast : narrow test (xs ++ ys) 0 (xs ++ ys).length = xs.length - 1 :=
      narrow_eq htest (.inl rfl) (by simp) hpos (by omega)
    have hbound : xs.length - 1 < (xs ++ ys).length := by
      rw [List.length_append] at hpos ⊢
      omega
    have hborder := htest (xs.length - 1) hbound
    have hnonempty : (xs ++ ys).isEmpty = false := by simpa using hempty
    simp only [partitionPoint, hnonempty, Bool.false_eq_true, if_false, hlast,
      List.getD_eq_getElem _ _ hbound]
    by_cases hlow : test (xs ++ ys)[xs.length - 1] = true
    · have hpositive := hborder.1 hlow
      rw [if_pos hlow]
      omega
    · have hnone := Nat.not_lt.1 fun h => hlow (hborder.2 h)
      rw [if_neg hlow]
      omega

/-! ## Line starts -/

theorem lineStartsFrom_append (offset : Nat) (xs ys : List Char) :
    lineStartsFrom offset (xs ++ ys) =
      lineStartsFrom offset xs ++ lineStartsFrom (offset + byteLength xs) ys := by
  induction xs generalizing offset with
  | nil => simp [lineStartsFrom, byteLength]
  | cons c xs ih =>
      by_cases hc : c = '\n'
      · simp [lineStartsFrom, hc, ih, byteLength, Nat.add_assoc]
      · simp [lineStartsFrom, hc, ih, byteLength, Nat.add_assoc]

theorem mem_lineStartsFrom {offset start : Nat} {cs : List Char}
    (h : start ∈ lineStartsFrom offset cs) : offset < start ∧ start ≤ offset + byteLength cs := by
  induction cs generalizing offset with
  | nil => cases h
  | cons c cs ih =>
      have hsize := c.utf8Size_pos
      have hlater : start ∈ lineStartsFrom (offset + c.utf8Size) cs →
          offset < start ∧ start ≤ offset + byteLength (c :: cs) := by
        intro hmem
        have hbounds := ih hmem
        simp only [byteLength]
        omega
      by_cases hc : c = '\n'
      · rw [lineStartsFrom, if_pos hc] at h
        rcases List.mem_cons.1 h with rfl | hmem
        · simp only [byteLength]
          omega
        · exact hlater hmem
      · rw [lineStartsFrom, if_neg hc] at h
        exact hlater h

theorem length_lineStartsFrom (offset : Nat) (cs : List Char) :
    (lineStartsFrom offset cs).length = cs.count '\n' := by
  induction cs generalizing offset with
  | nil => rfl
  | cons c cs ih =>
      by_cases hc : c = '\n'
      · simp [lineStartsFrom, hc, ih]
      · simp [lineStartsFrom, hc, ih]

theorem lineStartsFrom_lineFeed (offset : Nat) (cs : List Char) :
    lineStartsFrom offset ('\n' :: cs) = (offset + 1) :: lineStartsFrom (offset + 1) cs := rfl

theorem lineStartsFrom_of_not_mem {cs : List Char} (h : '\n' ∉ cs) (offset : Nat) :
    lineStartsFrom offset cs = [] := by
  apply List.eq_nil_of_length_eq_zero
  rw [length_lineStartsFrom, List.count_eq_zero_of_not_mem h]

theorem exists_of_mem_lineStartsFrom {offset start : Nat} {cs : List Char}
    (h : start ∈ lineStartsFrom offset cs) :
    ∃ before after, cs = before ++ '\n' :: after ∧ start = offset + byteLength before + 1 := by
  induction cs generalizing offset with
  | nil => cases h
  | cons c cs ih =>
      have hlater : start ∈ lineStartsFrom (offset + c.utf8Size) cs →
          ∃ before after, c :: cs = before ++ '\n' :: after ∧
            start = offset + byteLength before + 1 := by
        intro hmem
        obtain ⟨before, after, rfl, hstart⟩ := ih hmem
        exact ⟨c :: before, after, rfl, by simp only [hstart, byteLength]; omega⟩
      by_cases hc : c = '\n'
      · subst hc
        rw [lineStartsFrom_lineFeed] at h
        rcases List.mem_cons.1 h with rfl | hmem
        · exact ⟨[], cs, rfl, rfl⟩
        · exact hlater hmem
      · rw [lineStartsFrom, if_neg hc] at h
        exact hlater h

theorem pairwise_lineStartsFrom (offset : Nat) (cs : List Char) :
    (lineStartsFrom offset cs).Pairwise (· < ·) := by
  induction cs generalizing offset with
  | nil => exact .nil
  | cons c cs ih =>
      by_cases hc : c = '\n'
      · subst hc
        rw [lineStartsFrom_lineFeed]
        exact .cons (fun start hstart => (mem_lineStartsFrom hstart).1) (ih _)
      · rw [lineStartsFrom, if_neg hc]
        exact ih _

/-! ## Cuts -/

/-- The part of a line that has columns: the carriage return of a line break has none. -/
def lineContent (line after : List Char) : List Char :=
  if line.getLast? = some '\r' ∧ after.head? = some '\n' then line.dropLast else line

theorem exists_lastLine (cs : List Char) :
    ∃ head line, cs = head ++ line ∧ (head = [] ∨ ∃ lines, head = lines ++ ['\n']) ∧
      '\n' ∉ line := by
  induction cs with
  | nil => exact ⟨[], [], rfl, .inl rfl, List.not_mem_nil⟩
  | cons c cs ih =>
      rcases ih with ⟨head, line, rfl, rfl | ⟨lines, rfl⟩, hline⟩
      · by_cases hc : c = '\n'
        · exact ⟨[c], line, rfl, .inr ⟨[], by simp [hc]⟩, hline⟩
        · exact ⟨[], c :: line, rfl, .inl rfl, by simp [Ne.symm hc, hline]⟩
      · exact ⟨c :: (lines ++ ['\n']), line, rfl, .inr ⟨c :: lines, rfl⟩, hline⟩

theorem lineContent_isPrefix (line after : List Char) : lineContent line after <+: line := by
  unfold lineContent
  split
  · exact List.dropLast_prefix line
  · exact List.prefix_refl line

theorem lineContent_cons (c c' : Char) (line after : List Char) :
    lineContent (c :: c' :: line) after = c :: lineContent (c' :: line) after := by
  unfold lineContent
  by_cases hbreak : (c' :: line).getLast? = some '\r' ∧ after.head? = some '\n'
  · rw [if_pos hbreak, if_pos (by simpa using hbreak)]
    rfl
  · rw [if_neg hbreak, if_neg (by simpa using hbreak)]

/-- A cut right before a line feed falls into a line break if a carriage return is before it. -/
theorem min_break (head line later : List Char) :
    min (byteLength (head ++ line))
        (if byteLength head < byteLength (head ++ line) ∧ (head ++ line).getLast? = some '\r' then
          byteLength (head ++ line) - 1
        else byteLength (head ++ line)) =
      byteLength (head ++ lineContent line ('\n' :: later)) := by
  rcases List.eq_nil_or_concat line with rfl | ⟨start, c, hline⟩
  · simp [lineContent]
  · rw [List.concat_eq_append] at hline
    subst hline
    by_cases hc : c = '\r'
    · subst hc
      have hone : byteLength ['\r'] = 1 := by decide
      have hcontent : lineContent (start ++ ['\r']) ('\n' :: later) = start := by
        simp [lineContent]
      have hlast : (head ++ (start ++ ['\r'])).getLast? = some '\r' := by simp
      have hlong : byteLength head < byteLength (head ++ (start ++ ['\r'])) := by
        simp only [byteLength_append, hone]
        omega
      rw [hcontent, if_pos ⟨hlong, hlast⟩]
      simp only [byteLength_append, hone]
      omega
    · have hcontent : lineContent (start ++ [c]) ('\n' :: later) = start ++ [c] := by
        simp [lineContent, hc]
      have hlast : (head ++ (start ++ [c])).getLast? ≠ some '\r' := by simpa using hc
      rw [hcontent, if_neg fun h => hlast h.2, Nat.min_self]

namespace Snapshot

/-- A document is cut into whole lines, the part of a line, and the rest. -/
structure Cut (d : Snapshot) (head line after : List Char) : Prop where
  chars_eq : d.chars = head ++ (line ++ after)
  head_eq : head = [] ∨ ∃ lines, head = lines ++ ['\n']
  not_mem_line : '\n' ∉ line

theorem exists_cut {d : Snapshot} {before after : List Char} (h : d.chars = before ++ after) :
    ∃ head line, before = head ++ line ∧ d.Cut head line after := by
  rcases exists_lastLine before with ⟨head, line, rfl, hhead, hline⟩
  exact ⟨head, line, rfl, by simpa using h, hhead, hline⟩

namespace Cut

variable {d : Snapshot} {head line after : List Char} (cut : d.Cut head line after)
include cut

/-- The lines up to the cut start in its head, those behind it in the rest. -/
theorem lineStarts_eq :
    d.lineStarts = (0 :: lineStartsFrom 0 head) ++
      lineStartsFrom (byteLength (head ++ line)) after := by
  rw [lineStarts, cut.chars_eq, lineStartsFrom_append, lineStartsFrom_append,
    lineStartsFrom_of_not_mem cut.not_mem_line]
  simp

/-- The lines that start up to the cut are the first one and those behind the feeds before it. -/
theorem partitionPoint_eq :
    partitionPoint (fun start => decide (start ≤ byteLength (head ++ line))) d.lineStarts =
      head.count '\n' + 1 := by
  have hbefore : ∀ start ∈ 0 :: lineStartsFrom 0 head,
      decide (start ≤ byteLength (head ++ line)) = true := by
    intro start hstart
    rcases List.mem_cons.1 hstart with rfl | hmem
    · simp
    · have hbounds := mem_lineStartsFrom hmem
      simp only [byteLength_append, decide_eq_true_eq]
      omega
  have hbehind : ∀ start ∈ lineStartsFrom (byteLength (head ++ line)) after,
      decide (start ≤ byteLength (head ++ line)) = false := by
    intro start hstart
    simpa using (mem_lineStartsFrom hstart).1
  rw [cut.lineStarts_eq, partitionPoint_append hbefore hbehind]
  simp [length_lineStartsFrom]

theorem lineAt_eq : d.lineAt (byteLength (head ++ line)) = head.count '\n' := by
  rw [lineAt, cut.partitionPoint_eq, Nat.add_sub_cancel]

theorem start_eq : d.lineStarts.getD (head.count '\n') 0 = byteLength head := by
  have hlength : (0 :: lineStartsFrom 0 head).length = head.count '\n' + 1 := by
    simp [length_lineStartsFrom]
  rw [cut.lineStarts_eq, List.getD_append _ _ _ _ (by omega)]
  rcases cut.head_eq with rfl | ⟨lines, rfl⟩
  · simp [byteLength]
  · -- The last line of the head starts behind its last line feed.
    have hfeed : byteLength ['\n'] = 1 := by decide
    have hlast : lineStartsFrom 0 (lines ++ ['\n']) =
        lineStartsFrom 0 lines ++ [byteLength lines + 1] := by
      rw [lineStartsFrom_append, lineStartsFrom_lineFeed, Nat.zero_add]
      rfl
    rw [hlast]
    simp [length_lineStartsFrom, hfeed]

/-- The next line starts behind the first line feed of the rest. -/
theorem next_eq :
    d.lineStarts[head.count '\n' + 1]? =
      (lineStartsFrom (byteLength (head ++ line)) after).head? := by
  have hlength : (0 :: lineStartsFrom 0 head).length = head.count '\n' + 1 := by
    simp [length_lineStartsFrom]
  rw [cut.lineStarts_eq, List.getElem?_append_right (by omega), hlength, Nat.sub_self,
    List.head?_eq_getElem?]

/-- What is counted of the line up to the cut ends there, or before the break that it falls into. -/
theorem min_contentEnd :
    min (byteLength (head ++ line)) (d.contentEnd (head.count '\n')) =
      byteLength (head ++ lineContent line after) := by
  by_cases hfeed : '\n' ∈ after
  · -- The line ends with the first line feed of the rest.
    rcases List.eq_append_cons_of_mem hfeed with ⟨between, later, rfl, hbetween⟩
    have hnext : d.lineStarts[head.count '\n' + 1]? =
        some (byteLength (head ++ line ++ between) + 1) := by
      rw [cut.next_eq, lineStartsFrom_append, lineStartsFrom_of_not_mem hbetween,
        lineStartsFrom_lineFeed, byteLength_append (head ++ line)]
      rfl
    have hbefore : takeBytes (byteLength (head ++ line ++ between)) d.chars =
        head ++ line ++ between := by
      have hchars : d.chars = (head ++ line ++ between) ++ '\n' :: later := by
        simp [cut.chars_eq]
      rw [hchars, takeBytes_byteLength]
    simp only [contentEnd, hnext, Nat.add_sub_cancel, cut.start_eq, hbefore]
    cases between with
    | nil => simpa only [List.append_nil, List.nil_append] using min_break head line later
    | cons c between =>
        -- There are characters left before the break, so the cut does not fall into it.
        have hc : c ≠ '\n' := fun h => hbetween (h ▸ List.mem_cons_self)
        have hsize := c.utf8Size_pos
        have hcontent : lineContent line (c :: between ++ '\n' :: later) = line := by
          simp [lineContent, hc]
        rw [hcontent]
        simp only [byteLength_append, byteLength]
        split <;> omega
  · have hnone : d.lineStarts[head.count '\n' + 1]? = none := by
      rw [cut.next_eq, lineStartsFrom_of_not_mem hfeed, List.head?_nil]
    have hhead : after.head? ≠ some '\n' := by
      intro h
      exact hfeed (List.mem_of_mem_head? h)
    simp [contentEnd, hnone, lineContent, hhead, cut.chars_eq]

theorem positionAt_eq :
    d.positionAt (byteLength (head ++ line)) =
      ⟨saturate (head.count '\n'), d.encoding.measure (lineContent line after)⟩ := by
  have hfloor : d.floorBoundary (byteLength (head ++ line)) = byteLength (head ++ line) := by
    have hchars : d.chars = (head ++ line) ++ after := by simp [cut.chars_eq]
    rw [floorBoundary, hchars, takeBytes_byteLength]
  have hslice : d.slice (byteLength head) (byteLength (head ++ lineContent line after)) =
      lineContent line after := by
    rcases lineContent_isPrefix line after with ⟨rest, hrest⟩
    have hbehind : line ++ after = lineContent line after ++ (rest ++ after) := by
      rw [← List.append_assoc, hrest]
    rw [slice, cut.chars_eq, dropBytes_byteLength, byteLength_append, Nat.add_sub_cancel_left,
      hbehind, takeBytes_byteLength]
  simp only [positionAt, hfloor, cut.lineAt_eq, cut.start_eq, cut.min_contentEnd, hslice]

end Cut
end Snapshot
end VerifierSession
