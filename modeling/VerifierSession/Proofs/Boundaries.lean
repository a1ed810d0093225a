import VerifierSession.Document.Snapshot

/-!
# Byte offsets and boundaries

An offset cuts a text into the characters that lie wholly before it and those that do not.  What is
said of the offset is said of this cut.

* `takeBytes_append_dropBytes`, `byteLength_takeBytes_le` and `lt_of_dropBytes_eq_cons`: where the
  cut lies, with `takeBytes_byteLength` for an offset that is a boundary already;
* `Snapshot.takeBytes_floorBoundary` and `Snapshot.floorBoundary_eq_iff`: moving an offset back to a
  boundary keeps its cut, and two offsets get the same boundary if no character ends between them.
-/

namespace VerifierSession

/-! ## Lengths -/

@[simp]
theorem byteLength_append (xs ys : List Char) :
    byteLength (xs ++ ys) = byteLength xs + byteLength ys := by
  induction xs with
  | nil => simp [byteLength]
  | cons c xs ih => simp [byteLength, ih, Nat.add_assoc]

theorem length_le_byteLength (cs : List Char) : cs.length ≤ byteLength cs := by
  induction cs with
  | nil => exact Nat.zero_le _
  | cons c cs ih =>
      have hsize := c.utf8Size_pos
      simp only [List.length_cons, byteLength]
      omega

theorem eq_nil_of_byteLength_eq_zero {cs : List Char} (h : byteLength cs = 0) : cs = [] := by
  apply List.eq_nil_of_length_eq_zero
  have hle := length_le_byteLength cs
  omega

namespace Encoding

variable (encoding : Encoding)

theorem width_pos (c : Char) : 0 < encoding.width c := by
  cases encoding with
  | utf8 => exact c.utf8Size_pos
  | utf16 =>
      simp only [width]
      split <;> omega
  | utf32 => exact Nat.one_pos

theorem width_le_utf8Size (c : Char) : encoding.width c ≤ c.utf8Size := by
  have hsize := c.utf8Size_pos
  cases encoding with
  | utf8 => exact Nat.le_refl _
  | utf16 =>
      -- Two units are needed only where four bytes are.
      by_cases hc : c.toNat < 0x10000
      · simp only [width, hc, if_true]
        omega
      · have hfour : c.utf8Size = 4 := by
          rw [Char.utf8Size_eq_four_iff]
          have hval : c.val.toNat = c.toNat := rfl
          simp only [gt_iff_lt, UInt32.lt_iff_toNat_lt, UInt32.reduceToNat, hval]
          omega
        simp [width, hc, hfour]
  | utf32 => exact hsize

theorem units_le_byteLength (cs : List Char) : encoding.units cs ≤ byteLength cs := by
  induction cs with
  | nil => exact Nat.le_refl _
  | cons c cs ih => exact Nat.add_le_add (encoding.width_le_utf8Size c) ih

theorem units_utf32 (cs : List Char) : Encoding.utf32.units cs = cs.length := by
  induction cs with
  | nil => rfl
  | cons c cs ih => simp [units, width, ih, Nat.add_comm]

end Encoding

/-! ## Cuts -/

theorem takeBytes_append_dropBytes (n : Nat) (cs : List Char) :
    takeBytes n cs ++ dropBytes n cs = cs := by
  induction cs generalizing n with
  | nil => rfl
  | cons c cs ih =>
      by_cases hc : c.utf8Size ≤ n
      · simp [takeBytes, dropBytes, hc, ih]
      · simp [takeBytes, dropBytes, hc]

theorem byteLength_takeBytes_le (n : Nat) (cs : List Char) : byteLength (takeBytes n cs) ≤ n := by
  induction cs generalizing n with
  | nil => exact Nat.zero_le _
  | cons c cs ih =>
      by_cases hc : c.utf8Size ≤ n
      · have hrest := ih (n - c.utf8Size)
        simp only [takeBytes, hc, if_true, byteLength]
        omega
      · simp [takeBytes, hc, byteLength]

/-- The first character that is not before an offset does not end there. -/
theorem lt_of_dropBytes_eq_cons {n : Nat} {cs rest : List Char} {c : Char}
    (h : dropBytes n cs = c :: rest) : n < byteLength (takeBytes n cs) + c.utf8Size := by
  induction cs generalizing n with
  | nil => cases h
  | cons first cs ih =>
      by_cases hfirst : first.utf8Size ≤ n
      · have hlater := ih (n := n - first.utf8Size) (by simpa [dropBytes, hfirst] using h)
        simp only [takeBytes, hfirst, if_true, byteLength]
        omega
      · obtain ⟨rfl, -⟩ : first = c ∧ cs = rest := by simpa [dropBytes, hfirst] using h
        simp only [takeBytes, hfirst, if_false, byteLength]
        omega

theorem takeBytes_append {n : Nat} {xs : List Char} (h : byteLength xs ≤ n) (ys : List Char) :
    takeBytes n (xs ++ ys) = xs ++ takeBytes (n - byteLength xs) ys := by
  induction xs generalizing n with
  | nil => simp [byteLength]
  | cons c xs ih =>
      simp only [byteLength] at h
      have hc : c.utf8Size ≤ n := by omega
      have hrest := ih (n := n - c.utf8Size) (by omega)
      simp [takeBytes, hc, hrest, byteLength, Nat.sub_sub]

theorem takeBytes_zero (cs : List Char) : takeBytes 0 cs = [] := by
  cases cs with
  | nil => rfl
  | cons c cs => simp [takeBytes, Nat.ne_of_gt c.utf8Size_pos]

theorem takeBytes_byteLength (xs ys : List Char) : takeBytes (byteLength xs) (xs ++ ys) = xs := by
  rw [takeBytes_append (Nat.le_refl _), Nat.sub_self, takeBytes_zero, List.append_nil]

theorem dropBytes_byteLength (xs ys : List Char) : dropBytes (byteLength xs) (xs ++ ys) = ys := by
  have hcut := takeBytes_append_dropBytes (byteLength xs) (xs ++ ys)
  rw [takeBytes_byteLength] at hcut
  exact List.append_cancel_left hcut

theorem takeBytes_append_of_lt {n : Nat} {xs : List Char} (h : n < byteLength xs)
    (ys : List Char) : takeBytes n (xs ++ ys) = takeBytes n xs := by
  induction xs generalizing n with
  | nil => cases h
  | cons c xs ih =>
      by_cases hc : c.utf8Size ≤ n
      · have hrest := ih (n := n - c.utf8Size) (by simp only [byteLength] at h; omega)
        simp [takeBytes, hc, hrest]
      · simp [takeBytes, hc]

theorem takeBytes_of_le {n : Nat} {xs : List Char} (h : byteLength xs ≤ n) :
    takeBytes n xs = xs := by
  simpa [takeBytes] using takeBytes_append h []

/-- Going no further than to the end of the first of two texts stays within it. -/
theorem takeBytes_min (n : Nat) (xs ys : List Char) :
    takeBytes (min (byteLength (takeBytes n (xs ++ ys))) (byteLength xs)) (xs ++ ys) =
      takeBytes n xs := by
  by_cases hn : byteLength xs ≤ n
  · rw [takeBytes_append hn, byteLength_append, Nat.min_eq_right (Nat.le_add_right _ _),
      takeBytes_byteLength, takeBytes_of_le hn]
  · have hle := byteLength_takeBytes_le n xs
    have hcut := takeBytes_byteLength (takeBytes n xs) (dropBytes n xs ++ ys)
    rw [← List.append_assoc, takeBytes_append_dropBytes] at hcut
    rw [takeBytes_append_of_lt (Nat.not_le.1 hn) ys, Nat.min_eq_left (by omega), hcut]

theorem length_takeBytes_le (n : Nat) (cs : List Char) : (takeBytes n cs).length ≤ cs.length := by
  have hcut := congrArg List.length (takeBytes_append_dropBytes n cs)
  rw [List.length_append] at hcut
  omega

theorem exists_takeBytes_eq_append {a b : Nat} (hab : a ≤ b) (cs : List Char) :
    ∃ between, takeBytes b cs = takeBytes a cs ++ between ∧
      dropBytes a cs = between ++ dropBytes b cs := by
  have hle := Nat.le_trans (byteLength_takeBytes_le a cs) hab
  have hlater := takeBytes_append hle (dropBytes a cs)
  rw [takeBytes_append_dropBytes] at hlater
  refine ⟨_, hlater, ?_⟩
  -- Both sides are what is left of the text behind the first cut.
  have hwhole := takeBytes_append_dropBytes b cs
  rw [hlater, List.append_assoc] at hwhole
  exact List.append_cancel_left ((takeBytes_append_dropBytes a cs).trans hwhole.symm)

namespace Snapshot

variable (d : Snapshot) (offset : Nat)

theorem takeBytes_floorBoundary :
    takeBytes (d.floorBoundary offset) d.chars = takeBytes offset d.chars := by
  have hcut := takeBytes_byteLength (takeBytes offset d.chars) (dropBytes offset d.chars)
  rwa [takeBytes_append_dropBytes] at hcut

/-- An offset goes back to the start of its character, or to the end of the text. -/
theorem floorBoundary_eq_iff {before after : List Char}
    (h : d.chars = before ++ after) :
    d.floorBoundary offset = byteLength before ↔
      byteLength before ≤ offset ∧
        ∀ c rest, after = c :: rest → offset < byteLength before + c.utf8Size := by
  constructor
  · intro hfloor
    have hbefore : takeBytes offset d.chars = before := by
      rw [← d.takeBytes_floorBoundary, hfloor, h, takeBytes_byteLength]
    have hafter : dropBytes offset d.chars = after := by
      have hcut := takeBytes_append_dropBytes offset d.chars
      rw [hbefore] at hcut
      exact List.append_cancel_left (hcut.trans h)
    refine ⟨hfloor ▸ byteLength_takeBytes_le offset d.chars, ?_⟩
    intro c rest hc
    have hlt := lt_of_dropBytes_eq_cons (hafter.trans hc)
    rwa [hbefore] at hlt
  · rintro ⟨hle, hlt⟩
    have hnone : takeBytes (offset - byteLength before) after = [] := by
      cases hafter : after with
      | nil => rfl
      | cons c rest =>
          have hshort := hlt c rest hafter
          have hc : ¬ c.utf8Size ≤ offset - byteLength before := by omega
          simp [takeBytes, hc]
    rw [floorBoundary, h, takeBytes_append hle, hnone, List.append_nil]

end Snapshot

end VerifierSession
