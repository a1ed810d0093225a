import VerifierSession.Proofs.LineStarts

/-!
# Positions in a document

A position can also be found by going through the text from its start: a line feed begins a line,
and any other character takes its width, except a carriage return with a line feed behind it.

* `Snapshot.scan` is the position found that way, and `Snapshot.positionAt_eq_scan` says that
  looking up the line gives the same;
* `Position.along_eq_self_iff`: going on never goes back, and stays only where it passes the
  carriage return of a line break;
* `Snapshot.positionAt_mono`: so positions are ordered as offsets are, and two offsets share one
  only inside a character, behind the end, or inside a line break;
* `Snapshot.span_of_ordered`: every range of offsets in order has a span.
-/

namespace VerifierSession

namespace Position

/-! ## Order -/

theorem le_iff {p q : Position} :
    p.le q = true ↔ p.line < q.line ∨ p.line = q.line ∧ p.character ≤ q.character := by
  simp [le]

theorem le_refl (p : Position) : p.le p = true :=
  le_iff.2 (.inr ⟨rfl, Nat.le_refl _⟩)

theorem le_trans {p q r : Position} (hpq : p.le q = true) (hqr : q.le r = true) :
    p.le r = true := by
  rw [le_iff] at hpq hqr ⊢
  omega

theorem le_antisymm {p q : Position} (hpq : p.le q = true) (hqp : q.le p = true) : p = q := by
  rw [le_iff] at hpq hqp
  rcases p with ⟨line, character⟩
  rcases q with ⟨line', character'⟩
  simp only [Position.mk.injEq]
  simp only at hpq hqp
  omega

/-! ## Going along a text -/

/-- The position behind a character, in front of the next one. -/
def past (p : Position) (encoding : Encoding) (c : Char) (next : Option Char) : Position :=
  if c = '\n' then ⟨p.line + 1, 0⟩
  else if c = '\r' ∧ next = some '\n' then p
  else ⟨p.line, p.character + encoding.width c⟩

theorem le_past (p : Position) (encoding : Encoding) (c : Char) (next : Option Char) :
    p.le (p.past encoding c next) = true := by
  unfold past
  split
  · exact le_iff.2 (.inl (Nat.lt_succ_self _))
  · split
    · exact le_refl p
    · exact le_iff.2 (.inr ⟨rfl, Nat.le_add_right _ _⟩)

theorem past_eq_self_iff (p : Position) (encoding : Encoding) (c : Char) (next : Option Char) :
    p.past encoding c next = p ↔ c = '\r' ∧ next = some '\n' := by
  have hwidth := encoding.width_pos c
  rcases p with ⟨line, character⟩
  unfold past
  constructor
  · intro h
    split at h
    · simp only [Position.mk.injEq] at h
      omega
    · split at h
      · assumption
      · simp only [Position.mk.injEq] at h
        omega
  · rintro ⟨rfl, rfl⟩
    simp

/-- The position behind some characters, in front of others. -/
def along (encoding : Encoding) (before after : List Char) (p : Position) : Position :=
  match before with
  | [] => p
  | c :: before => along encoding before after (p.past encoding c (before ++ after).head?)

section Along

variable (encoding : Encoding)

theorem along_append (xs ys after : List Char) (p : Position) :
    along encoding (xs ++ ys) after p = along encoding ys after (along encoding xs (ys ++ after) p) := by
  induction xs generalizing p with
  | nil => rfl
  | cons c xs ih => simp [along, ih]

theorem le_along (before after : List Char) (p : Position) :
    p.le (along encoding before after p) = true := by
  induction before generalizing p with
  | nil => exact le_refl p
  | cons c before ih => exact le_trans (le_past p encoding c _) (ih _)

/-- Going along a text ends where it began only on the carriage return of a line break. -/
theorem along_eq_self_iff (before after : List Char) (p : Position) :
    along encoding before after p = p ↔
      before = [] ∨ before = ['\r'] ∧ after.head? = some '\n' := by
  induction before generalizing p with
  | nil => simp [along]
  | cons c before ih =>
      constructor
      · intro h
        -- No step goes back, so none of them moves.
        have hfirst : p.past encoding c (before ++ after).head? = p := by
          have hback := le_along encoding before after (p.past encoding c (before ++ after).head?)
          rw [along] at h
          rw [h] at hback
          exact le_antisymm hback (le_past p encoding c _)
        have hrest : along encoding before after p = p := by
          rwa [along, hfirst] at h
        rcases (past_eq_self_iff p encoding c _).1 hfirst with ⟨rfl, hnext⟩
        rcases (ih p).1 hrest with rfl | ⟨rfl, -⟩
        · exact .inr ⟨rfl, hnext⟩
        · cases hnext
      · rintro (h | ⟨h, hnext⟩)
        · cases h
        · cases h
          simpa [along] using (past_eq_self_iff p encoding '\r' after.head?).2 ⟨rfl, hnext⟩

theorem along_line (before after : List Char) (p : Position) :
    (along encoding before after p).line = p.line + before.count '\n' := by
  induction before generalizing p with
  | nil => rfl
  | cons c before ih =>
      rw [along, ih, past]
      by_cases hc : c = '\n'
      · simp [hc, Nat.add_assoc, Nat.add_comm 1]
      · rw [if_neg hc, List.count_cons_of_ne hc]
        split <;> rfl

/-- Along a part of a line, what has columns is counted. -/
theorem along_inside {line after : List Char} (hline : '\n' ∉ line) (p : Position) :
    along encoding line after p =
      ⟨p.line, p.character + encoding.units (lineContent line after)⟩ := by
  induction line generalizing p with
  | nil => simp [along, lineContent, Encoding.units]
  | cons c line ih =>
      have hc : c ≠ '\n' := fun h => hline (h ▸ List.mem_cons_self)
      have hrest : '\n' ∉ line := fun h => hline (List.mem_cons_of_mem _ h)
      rw [along, ih hrest, past, if_neg hc]
      cases line with
      | nil =>
          by_cases hbreak : c = '\r' ∧ after.head? = some '\n'
          · simp [hbreak, lineContent, Encoding.units]
          · simp [hbreak, lineContent, Encoding.units]
      | cons c' line =>
          have hc' : c' ≠ '\n' := fun h => hrest (h ▸ List.mem_cons_self)
          simp [lineContent_cons, hc', Encoding.units, Nat.add_assoc]

end Along
end Position

/-! ## Scanning -/

/-- Goes through the characters of a text that lie wholly before an offset. -/
def scanFrom (encoding : Encoding) (offset : Nat) (cs : List Char) (p : Position) : Position :=
  match cs with
  | [] => p
  | c :: cs =>
      if c.utf8Size ≤ offset then
        scanFrom encoding (offset - c.utf8Size) cs (p.past encoding c cs.head?)
      else p

theorem scanFrom_eq_along (encoding : Encoding) (offset : Nat) (cs : List Char) (p : Position) :
    scanFrom encoding offset cs p =
      Position.along encoding (takeBytes offset cs) (dropBytes offset cs) p := by
  induction cs generalizing offset p with
  | nil => rfl
  | cons c cs ih =>
      by_cases hc : c.utf8Size ≤ offset
      · simp [scanFrom, takeBytes, dropBytes, hc, ih, Position.along, takeBytes_append_dropBytes]
      · simp [scanFrom, takeBytes, dropBytes, hc, Position.along]

theorem saturate_of_lt {n : Nat} (h : n < 4294967296) : saturate n = n := by
  unfold saturate
  omega

namespace Snapshot

variable (d : Snapshot)

/-- The position of an offset, found by going through the text. -/
def scan (offset : Nat) : Position :=
  scanFrom d.encoding offset d.chars ⟨0, 0⟩

/-- Two offsets are those of the carriage return and the line feed of one line break. -/
def IsBreak (first second : Nat) : Prop :=
  ∃ before after, d.chars = before ++ '\r' :: '\n' :: after ∧
    first = byteLength before ∧ second = byteLength before + 1

theorem positionAt_floorBoundary (offset : Nat) :
    d.positionAt (d.floorBoundary offset) = d.positionAt offset := by
  have hfloor : d.floorBoundary (d.floorBoundary offset) = d.floorBoundary offset :=
    congrArg byteLength (d.takeBytes_floorBoundary offset)
  unfold positionAt
  rw [hfloor]

section Small

variable (hsize : byteLength d.chars < 4294967296)
include hsize

/-- A position is where the characters before it lead, as long as no count is cut off. -/
theorem positionAt_eq_along (offset : Nat) :
    d.positionAt offset =
      Position.along d.encoding (takeBytes offset d.chars) (dropBytes offset d.chars) ⟨0, 0⟩ := by
  have hchars := (takeBytes_append_dropBytes offset d.chars).symm
  rcases exists_cut hchars with ⟨head, line, hbefore, cut⟩
  have hbytes : byteLength head + (byteLength line + byteLength (dropBytes offset d.chars)) <
      4294967296 := by
    rw [cut.chars_eq] at hsize
    simpa using hsize
  have hlines : head.count '\n' < 4294967296 := by
    have hcount := List.count_le_length (a := '\n') (l := head)
    have hlength := length_le_byteLength head
    omega
  have hunits : d.encoding.units (lineContent line (dropBytes offset d.chars)) < 4294967296 := by
    rcases lineContent_isPrefix line (dropBytes offset d.chars) with ⟨rest, hrest⟩
    have hcontent := congrArg byteLength hrest
    have hle := d.encoding.units_le_byteLength (lineContent line (dropBytes offset d.chars))
    rw [byteLength_append] at hcontent
    omega
  have hhead : ∀ after, Position.along d.encoding head after ⟨0, 0⟩ = ⟨head.count '\n', 0⟩ := by
    intro after
    rcases cut.head_eq with rfl | ⟨lines, rfl⟩
    · rfl
    · -- The last character of the head begins a line.
      have hline := Position.along_line d.encoding lines ('\n' :: after) ⟨0, 0⟩
      simpa [Position.along_append, Position.along, Position.past] using hline
  calc
    d.positionAt offset
        = d.positionAt (byteLength (head ++ line)) := by
          rw [← positionAt_floorBoundary, floorBoundary, hbefore]
    _ = ⟨head.count '\n', d.encoding.units (lineContent line (dropBytes offset d.chars))⟩ := by
          rw [cut.positionAt_eq, saturate_of_lt hlines, Encoding.measure, saturate_of_lt hunits]
    _ = Position.along d.encoding (head ++ line) (dropBytes offset d.chars) ⟨0, 0⟩ := by
          rw [Position.along_append, hhead, Position.along_inside d.encoding cut.not_mem_line,
            Nat.zero_add]
    _ = _ := by rw [hbefore]

/-- A later offset is reached by going on from an earlier one. -/
theorem exists_positionAt_eq_along {a b : Nat} (hab : a ≤ b) :
    ∃ between, takeBytes b d.chars = takeBytes a d.chars ++ between ∧
      d.positionAt b =
        Position.along d.encoding between (dropBytes b d.chars) (d.positionAt a) := by
  rcases exists_takeBytes_eq_append hab d.chars with ⟨between, htake, hdrop⟩
  refine ⟨between, htake, ?_⟩
  rw [d.positionAt_eq_along hsize b, d.positionAt_eq_along hsize a, htake, hdrop,
    Position.along_append]

theorem le_positionAt {a b : Nat} (hab : a ≤ b) :
    (d.positionAt a).le (d.positionAt b) = true := by
  rcases d.exists_positionAt_eq_along hsize hab with ⟨between, -, hlater⟩
  rw [hlater]
  exact Position.le_along d.encoding between _ _

theorem positionAt_eq_iff {a b : Nat} (hab : a ≤ b) :
    d.positionAt a = d.positionAt b ↔
      d.floorBoundary a = d.floorBoundary b ∨
        d.IsBreak (d.floorBoundary a) (d.floorBoundary b) := by
  rcases d.exists_positionAt_eq_along hsize hab with ⟨between, htake, hlater⟩
  have hchars := takeBytes_append_dropBytes b d.chars
  have hfloor : d.floorBoundary b = d.floorBoundary a + byteLength between := by
    rw [floorBoundary, htake, byteLength_append, floorBoundary]
  rw [hlater, eq_comm, Position.along_eq_self_iff]
  constructor
  · rintro (rfl | ⟨rfl, hnext⟩)
    · exact .inl (by simp [hfloor, byteLength])
    · rcases List.head?_eq_some_iff.1 hnext with ⟨rest, hrest⟩
      rw [htake, hrest] at hchars
      exact .inr ⟨takeBytes a d.chars, rest, by simpa using hchars.symm, rfl, hfloor⟩
  · rintro (hsame | ⟨before, after, hbreak, hfirst, hsecond⟩)
    · -- Characters that take no bytes are none.
      exact .inl (eq_nil_of_byteLength_eq_zero (by omega))
    · -- What is before the first boundary is known, so the return is all that lies between.
      have hbefore : takeBytes a d.chars = before := by
        rw [← d.takeBytes_floorBoundary, hfirst, hbreak, takeBytes_byteLength]
      have hrest : between ++ dropBytes b d.chars = '\r' :: '\n' :: after := by
        have hwhole := hchars.trans hbreak
        rw [htake, hbefore, List.append_assoc] at hwhole
        exact List.append_cancel_left hwhole
      have hone : byteLength between = 1 := by omega
      cases between with
      | nil => cases hone
      | cons c between =>
          rw [List.cons_append, List.cons.injEq] at hrest
          rcases hrest with ⟨rfl, hafter⟩
          have hnone : between = [] := by
            have hreturn : ('\r' : Char).utf8Size = 1 := by decide
            simp only [byteLength, hreturn] at hone
            exact eq_nil_of_byteLength_eq_zero (by omega)
          subst hnone
          exact .inr ⟨rfl, by simpa using congrArg List.head? hafter⟩

end Small

/-! ## The lookup and the scan -/

/--
Looking up the line gives the position that going through the text gives.  An offset inside a
character counts as its start, and one past the end as the end.
-/
theorem positionAt_eq_scan (hsize : byteLength d.chars < 4294967296) :
    (∀ offset, d.positionAt offset = d.scan offset) ∧
      (∀ before c after, d.chars = before ++ c :: after → ∀ offset,
        byteLength before ≤ offset → offset < byteLength before + c.utf8Size →
          d.positionAt offset = d.positionAt (byteLength before)) ∧
      ∀ offset, byteLength d.chars ≤ offset →
        d.positionAt offset = d.positionAt (byteLength d.chars) := by
  refine ⟨?_, ?_, ?_⟩
  · intro offset
    rw [d.positionAt_eq_along hsize, scan, scanFrom_eq_along]
  · intro before c after hchars offset hlow hhigh
    have hinside : ∀ c' rest, c :: after = c' :: rest → offset < byteLength before + c'.utf8Size := by
      intro c' rest heq
      cases heq
      exact hhigh
    rw [← d.positionAt_floorBoundary, (d.floorBoundary_eq_iff offset hchars).2 ⟨hlow, hinside⟩]
  · intro offset hend
    have hnone : ∀ c rest, ([] : List Char) = c :: rest →
        offset < byteLength d.chars + c.utf8Size := by
      intro c rest heq
      cases heq
    rw [← d.positionAt_floorBoundary,
      (d.floorBoundary_eq_iff offset (List.append_nil _).symm).2 ⟨hend, hnone⟩]

/-- Two lines with a break of two characters between them, the first with characters of any size. -/
def sampleText : Snapshot :=
  .ofText "é𝔸\r\n\rx" .utf16

/-- Inside a character, on both characters of the break, behind a lone return, and past the end. -/
theorem positionAt_of_sampleText :
    byteLength sampleText.chars < 4294967296 ∧
      [4, 6, 7, 9, 100].map sampleText.positionAt = [⟨0, 1⟩, ⟨0, 3⟩, ⟨0, 3⟩, ⟨1, 1⟩, ⟨1, 2⟩] := by
  have hsize : byteLength sampleText.chars < 4294967296 := by decide +kernel
  refine ⟨hsize, ?_⟩
  rw [List.map_congr_left fun offset _ => (positionAt_eq_scan sampleText hsize).1 offset]
  decide +kernel

/-! ## Order -/

/--
Positions are ordered as offsets are.  Two offsets have one position only if they lie in one
character or behind the end, or on the two characters of one line break.
-/
theorem positionAt_mono (hsize : byteLength d.chars < 4294967296) {a b : Nat} (hab : a ≤ b) :
    (d.positionAt a).le (d.positionAt b) = true ∧
      (d.positionAt a = d.positionAt b ↔
        d.floorBoundary a = d.floorBoundary b ∨
          d.IsBreak (d.floorBoundary a) (d.floorBoundary b)) :=
  ⟨d.le_positionAt hsize hab, d.positionAt_eq_iff hsize hab⟩

/-- The two characters of a break have one position, and different boundaries. -/
theorem positionAt_of_break :
    byteLength sampleText.chars < 4294967296 ∧ 6 ≤ 7 ∧
      sampleText.floorBoundary 6 ≠ sampleText.floorBoundary 7 ∧
      sampleText.positionAt 6 = sampleText.positionAt 7 := by
  have hsize : byteLength sampleText.chars < 4294967296 := by decide +kernel
  have hbreak : sampleText.IsBreak (sampleText.floorBoundary 6) (sampleText.floorBoundary 7) :=
    ⟨['é', '𝔸'], ['\r', 'x'], by decide +kernel, by decide +kernel, by decide +kernel⟩
  refine ⟨hsize, by decide, by decide +kernel, ?_⟩
  exact (positionAt_mono sampleText hsize (by decide)).2.2 (.inr hbreak)

/-! ## Spans -/

theorem between?_of_le {start stop : Position} (h : start.le stop = true) :
    Span.between? start stop = some ⟨start, stop, h⟩ := by
  simp [Span.between?, h]

theorem le_wordStop (hsize : byteLength d.chars < 4294967296) (offset : Nat) :
    (d.positionAt (d.floorBoundary offset)).le
      (d.positionAt
        (d.floorBoundary offset + byteLength (d.wordAt (d.floorBoundary offset)))) = true :=
  d.le_positionAt hsize (Nat.le_add_right _ _)

/--
Exactly the ranges of offsets in order have a span, from the position of the one to that of the
other, however long the text is; any other is handed back.  A word has a span at every offset that
is not negative.  The positions that are looked up are never refused as a span.
-/
theorem span_of_ordered (hsize : byteLength d.chars < 4294967296) :
    (∀ left right : Int, 0 ≤ left ∧ left ≤ right →
      ∃ span, Span.between? (d.positionAt left.toNat) (d.positionAt right.toNat) = some span ∧
        d.span left right = .ok span ∧ span.start = d.positionAt left.toNat ∧
        span.stop = d.positionAt right.toNat ∧ span.start.le span.stop = true) ∧
      (∀ left right : Int, ¬ (0 ≤ left ∧ left ≤ right) →
        d.span left right = .error ⟨left, right⟩) ∧
      (∀ offset : Int, 0 ≤ offset →
        ∃ span, Span.between? (d.positionAt (d.floorBoundary offset.toNat))
            (d.positionAt (d.floorBoundary offset.toNat +
              byteLength (d.wordAt (d.floorBoundary offset.toNat)))) = some span ∧
          d.wordSpanAt offset = .ok span) ∧
      ∀ offset : Int, offset < 0 → d.wordSpanAt offset = .error ⟨offset, offset⟩ := by
  refine ⟨?_, ?_, ?_, ?_⟩
  · rintro left right ⟨hleft, hright⟩
    have hle : (d.positionAt left.toNat).le (d.positionAt right.toNat) = true :=
      d.le_positionAt hsize (Int.toNat_le_toNat hright)
    have hordered : ¬ (left < 0 ∨ right < 0 ∨ right < left) := by omega
    refine ⟨⟨_, _, hle⟩, between?_of_le hle, ?_, rfl, rfl, hle⟩
    rw [span, if_neg hordered, between?_of_le hle]
  · intro left right hdisordered
    have hrefused : left < 0 ∨ right < 0 ∨ right < left := by omega
    rw [span, if_pos hrefused]
  · intro offset hoffset
    have hle := d.le_wordStop hsize offset.toNat
    refine ⟨⟨_, _, hle⟩, between?_of_le hle, ?_⟩
    simp only [wordSpanAt, if_neg (Int.not_lt.2 hoffset), between?_of_le hle]
  · intro offset hoffset
    rw [wordSpanAt, if_pos hoffset]

/-- Both ends inside one character, both ends on one break, and a range far behind the end. -/
theorem span_of_sampleText :
    byteLength sampleText.chars < 4294967296 ∧
      (∀ range ∈ [((3 : Int), (5 : Int)), (6, 7), (8, 9223372036854775807)],
        ∃ span, sampleText.span range.1 range.2 = .ok span) ∧
      sampleText.span 5 3 = .error ⟨5, 3⟩ ∧ sampleText.span (-1) 3 = .error ⟨-1, 3⟩ := by
  have hsize : byteLength sampleText.chars < 4294967296 := by decide +kernel
  rcases span_of_ordered sampleText hsize with ⟨hordered, hrefused, -, -⟩
  refine ⟨hsize, ?_, hrefused 5 3 (by decide), hrefused (-1) 3 (by decide)⟩
  intro range hrange
  have horder : 0 ≤ range.1 ∧ range.1 ≤ range.2 := by
    simp only [List.mem_cons, List.not_mem_nil, or_false] at hrange
    rcases hrange with rfl | rfl | rfl <;> decide
  rcases hordered range.1 range.2 horder with ⟨span, -, hspan, -⟩
  exact ⟨span, hspan⟩

end Snapshot
end VerifierSession
