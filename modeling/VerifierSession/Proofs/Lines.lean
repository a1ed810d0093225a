import VerifierSession.Framing.Line

/-!
# The records of a stream

A stream is cut at its line feeds, and what follows the last one is a record too unless it is
empty.  Cutting can be interrupted anywhere and go on with what is left.

* `cut_append` says so for two pieces of a stream;
* `lines` are the records that a line feed ends, `records` are all of them.
-/

namespace VerifierSession
namespace Framing

/-- The records of a stream that a line feed ends. -/
def lines (bytes : List UInt8) : List String :=
  (cut bytes).1.map lineText

/-- The record at the end of a stream, if no line feed ends it. -/
def lastLine (bytes : List UInt8) : List String :=
  if (cut bytes).2.isEmpty then [] else [lineText (cut bytes).2]

def records (bytes : List UInt8) : List String :=
  lines bytes ++ lastLine bytes

@[simp] theorem cut_nil : cut [] = ([], []) := rfl

theorem cut_lineFeed (bs : List UInt8) :
    cut (lineFeed :: bs) = ([] :: (cut bs).1, (cut bs).2) := by
  simp [cut]

theorem cut_cons_of_nil {b : UInt8} {bs : List UInt8} (hb : b ≠ lineFeed)
    (hbs : (cut bs).1 = []) : cut (b :: bs) = ([], b :: (cut bs).2) := by
  simp [cut, hb, hbs]

theorem cut_cons_of_cons {b : UInt8} {bs piece : List UInt8} {pieces : List (List UInt8)}
    (hb : b ≠ lineFeed) (hbs : (cut bs).1 = piece :: pieces) :
    cut (b :: bs) = ((b :: piece) :: pieces, (cut bs).2) := by
  simp [cut, hb, hbs]

theorem cut_append (as bs : List UInt8) :
    cut (as ++ bs) =
      ((cut as).1 ++ (cut ((cut as).2 ++ bs)).1, (cut ((cut as).2 ++ bs)).2) := by
  induction as with
  | nil => simp
  | cons a as ih =>
      by_cases ha : a = lineFeed
      · rw [ha, List.cons_append, cut_lineFeed, cut_lineFeed, ih]
        rfl
      · cases has : (cut as).1 with
        | nil =>
            -- No line feed yet: what is left begins with the first byte.
            have hrest : cut (as ++ bs) = cut ((cut as).2 ++ bs) := by
              rw [ih, has, List.nil_append]
            rw [cut_cons_of_nil ha has, List.nil_append]
            simp only [List.cons_append, cut, hrest, ha, if_false]
        | cons piece pieces =>
            -- The first byte goes to the first piece, which the rest of the stream leaves alone.
            have hfirst : (cut (as ++ bs)).1 =
                piece :: (pieces ++ (cut ((cut as).2 ++ bs)).1) := by
              rw [ih, has, List.cons_append]
            rw [List.cons_append, cut_cons_of_cons ha has, cut_cons_of_cons ha hfirst, ih]
            rfl

/-- What is left of a stream has no line feed. -/
theorem lineFeed_not_mem_left (bs : List UInt8) : lineFeed ∉ (cut bs).2 := by
  induction bs with
  | nil => simp
  | cons b bs ih =>
      by_cases hb : b = lineFeed
      · rw [hb, cut_lineFeed]
        exact ih
      · cases hbs : (cut bs).1 with
        | nil =>
            rw [cut_cons_of_nil hb hbs, List.mem_cons]
            rintro (heq | hmem)
            · exact hb heq.symm
            · exact ih hmem
        | cons piece pieces =>
            rw [cut_cons_of_cons hb hbs]
            exact ih

section FirstLine

variable {bs : List UInt8} (h : lineFeed ∉ bs)
include h

theorem all_inLine : ∀ b ∈ bs, (b != lineFeed) = true := by
  intro b hb
  have hne : b ≠ lineFeed := fun heq => h (heq ▸ hb)
  simpa using hne

theorem takeWhile_lineFeed (behind : List UInt8) :
    (bs ++ lineFeed :: behind).takeWhile (· != lineFeed) = bs := by
  simp [List.takeWhile_append_of_pos (all_inLine h)]

theorem dropWhile_lineFeed (behind : List UInt8) :
    (bs ++ lineFeed :: behind).dropWhile (· != lineFeed) = lineFeed :: behind := by
  simp [List.dropWhile_append_of_pos (all_inLine h)]

theorem dropWhile_of_not_mem : bs.dropWhile (· != lineFeed) = [] := by
  have hdrop : (bs ++ []).dropWhile (· != lineFeed) = [].dropWhile (· != lineFeed) :=
    List.dropWhile_append_of_pos (all_inLine h)
  simpa using hdrop

end FirstLine

theorem cut_of_not_mem {bs : List UInt8} (h : lineFeed ∉ bs) : cut bs = ([], bs) := by
  induction bs with
  | nil => rfl
  | cons b bs ih =>
      rw [List.mem_cons, not_or] at h
      have hrest := ih h.2
      rw [cut_cons_of_nil (fun hb => h.1 hb.symm) (by rw [hrest]), hrest]

/-- A piece without a line feed that a line feed follows is the first piece. -/
theorem cut_append_lineFeed {as : List UInt8} (has : lineFeed ∉ as) (bs : List UInt8) :
    cut (as ++ lineFeed :: bs) = (as :: (cut bs).1, (cut bs).2) := by
  induction as with
  | nil => exact cut_lineFeed bs
  | cons a as ih =>
      rw [List.mem_cons, not_or] at has
      have hrest := ih has.2
      rw [List.cons_append, cut_cons_of_cons (fun ha => has.1 ha.symm) (by rw [hrest]), hrest]

theorem records_of_not_mem {bs : List UInt8} (h : lineFeed ∉ bs) :
    records bs = if bs.isEmpty then [] else [lineText bs] := by
  simp [records, lines, lastLine, cut_of_not_mem h]

theorem records_append_lineFeed {as : List UInt8} (has : lineFeed ∉ as) (bs : List UInt8) :
    records (as ++ lineFeed :: bs) = lineText as :: records bs := by
  simp [records, lines, lastLine, cut_append_lineFeed has]

theorem eq_of_append_lineFeed {as bs as' bs' : List UInt8} (has : lineFeed ∉ as)
    (has' : lineFeed ∉ as') (h : as ++ lineFeed :: bs = as' ++ lineFeed :: bs') :
    as = as' ∧ bs = bs' := by
  have hcut := congrArg (fun bytes => (cut bytes).1.head?) h
  have hfirst : as = as' := by
    simpa [cut_append_lineFeed has, cut_append_lineFeed has'] using hcut
  subst hfirst
  exact ⟨rfl, by simpa using h⟩

/-- Cutting is splitting at line feeds, with the last part kept for itself. -/
theorem splitOn_lineFeed (bs : List UInt8) : bs.splitOn lineFeed = (cut bs).1 ++ [(cut bs).2] := by
  induction bs with
  | nil => simp
  | cons b bs ih =>
      by_cases hb : b = lineFeed
      · rw [hb, cut_lineFeed, List.splitOn_cons_eq_if_modifyHead, ih]
        simp
      · cases hbs : (cut bs).1 with
        | nil =>
            rw [cut_cons_of_nil hb hbs, List.splitOn_cons_eq_if_modifyHead, ih, hbs]
            simp [hb]
        | cons piece pieces =>
            rw [cut_cons_of_cons hb hbs, List.splitOn_cons_eq_if_modifyHead, ih, hbs]
            simp [hb]

theorem lines_append (as bs : List UInt8) :
    lines (as ++ bs) = lines as ++ lines ((cut as).2 ++ bs) := by
  simp only [lines, cut_append as bs, List.map_append]

/-- A record that a line feed ends is a record of every stream that goes on. -/
theorem lines_isPrefix {as bs : List UInt8} (h : as <+: bs) : lines as <+: lines bs := by
  obtain ⟨rest, rfl⟩ := h
  rw [lines_append]
  exact List.prefix_append _ _

theorem mem_lines_of_mem_lastLine {as : List UInt8} (bs : List UInt8) {line : String}
    (h : line ∈ lastLine as) : line ∈ lines (as ++ lineFeed :: bs) := by
  unfold lastLine at h
  split at h
  · cases h
  · rw [lines_append, List.mem_singleton.1 h]
    simp [lines, cut_append_lineFeed (lineFeed_not_mem_left as) bs]

end Framing
end VerifierSession
