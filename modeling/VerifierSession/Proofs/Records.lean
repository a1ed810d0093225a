import VerifierSession.Proofs.Decoding
import VerifierSession.Proofs.Interruptions

/-!
# The text of a stream and the text of its lines

A stream is cut at line feeds before its lines are read as UTF-8.  Line feeds and carriage returns
are characters by themselves wherever they stand, so the text of the whole stream, cut at its line
feeds, comes to the same lines, and a broken piece never reaches over the end of one.

* `splitOn_lossy`, `lossy_rdropWhile_isBreak`: cutting and taking off a line break commute with
  reading;
* `LineReader.results_eq_lines_of_text`: records are the lines of the text of the stream.
-/

namespace VerifierSession
namespace Framing

open Text.Utf8 (lossy Decodes)

/-! ## Parts of a list -/

section Parts

variable {α : Type} [DecidableEq α] {a : α}

/-- A list ends at its only part, or its first part ends at a separator. -/
theorem parts_induction (a : α) {motive : List α → Prop} (last : ∀ xs, a ∉ xs → motive xs)
    (part : ∀ xs rest, a ∉ xs → motive rest → motive (xs ++ a :: rest)) (xs : List α) :
    motive xs := by
  induction hn : xs.length using Nat.strongRecOn generalizing xs with
  | ind n ih =>
      subst hn
      by_cases hmem : a ∈ xs
      · obtain ⟨first, rest, rfl, hfirst⟩ := List.eq_append_cons_of_mem hmem
        refine part first rest hfirst (ih _ ?_ rest rfl)
        simp
        omega
      · exact last xs hmem

theorem not_mem_of_mem_splitOn {xs part : List α} (h : part ∈ xs.splitOn a) : a ∉ part := by
  induction xs using parts_induction a with
  | last xs hxs =>
      rw [List.splitOn_eq_singleton hxs, List.mem_singleton] at h
      rwa [h]
  | part first rest hfirst ih =>
      rw [List.splitOn_append_cons_self_of_not_mem hfirst, List.mem_cons] at h
      rcases h with rfl | hrest
      · exact hfirst
      · exact ih hrest

theorem infix_of_mem_splitOn {xs part : List α} (h : part ∈ xs.splitOn a) : part <:+: xs := by
  induction xs using parts_induction a with
  | last xs hxs =>
      rw [List.splitOn_eq_singleton hxs, List.mem_singleton] at h
      exact h ▸ List.infix_rfl
  | part first rest hfirst ih =>
      rw [List.splitOn_append_cons_self_of_not_mem hfirst, List.mem_cons] at h
      rcases h with rfl | hrest
      · exact (List.prefix_append _ _).isInfix
      · exact (ih hrest).trans ⟨first ++ [a], [], by simp⟩

theorem mem_splitOn_of_mem_partsAt {xs part : List α} (h : part ∈ partsAt a xs) :
    part ∈ xs.splitOn a := by
  unfold partsAt at h
  split at h
  · exact List.dropLast_subset _ h
  · exact h

end Parts

/-! ## Reading and cutting -/

theorem lossy_eq_nil {bs : List UInt8} : lossy bs = [] ↔ bs = [] := by
  constructor
  · intro h
    exact Text.Utf8.eq_nil_of_decodes (Text.Utf8.decodes_iff.mpr h)
  · rintro rfl
    rfl

theorem lineFeed_mem_of_lossy {bs : List UInt8} (h : '\n' ∈ lossy bs) : lineFeed ∈ bs := by
  obtain ⟨before, after, htext⟩ := List.append_of_mem h
  have hdecodes := Text.Utf8.decodes_iff.mpr htext
  obtain ⟨bs', b, bs'', rfl, hb, -⟩ := Text.Utf8.exists_of_decodes_append (by decide) hdecodes
  have hline : b = lineFeed := UInt8.toNat_inj.mp hb
  simp [hline]

theorem splitOn_lossy (bs : List UInt8) :
    (lossy bs).splitOn '\n' = (bs.splitOn lineFeed).map lossy := by
  induction bs using parts_induction lineFeed with
  | last bs hbs =>
      rw [List.splitOn_eq_singleton hbs, List.splitOn_eq_singleton (mt lineFeed_mem_of_lossy hbs)]
      rfl
  | part line rest hline ih =>
      have hread : lossy (line ++ lineFeed :: rest) = lossy line ++ '\n' :: lossy rest :=
        Text.Utf8.lossy_append_ascii line (by decide) rest
      rw [hread, List.splitOn_append_cons_self_of_not_mem (mt lineFeed_mem_of_lossy hline), ih,
        List.splitOn_append_cons_self_of_not_mem hline, List.map_cons]

theorem partsAt_lossy (bs : List UInt8) :
    partsAt '\n' (lossy bs) = (partsAt lineFeed bs).map lossy := by
  have hlast : ((bs.splitOn lineFeed).map lossy).getLast? = some [] ↔
      (bs.splitOn lineFeed).getLast? = some [] := by
    simp [List.getLast?_map, lossy_eq_nil]
  unfold partsAt
  rw [splitOn_lossy]
  by_cases hempty : (bs.splitOn lineFeed).getLast? = some []
  · rw [if_pos hempty, if_pos (hlast.mpr hempty), List.map_dropLast]
  · rw [if_neg hempty, if_neg (mt hlast.mp hempty)]

/-- A carriage return at the end of a text is read from one at the end of the bytes. -/
theorem carriageReturn_of_lossy {bs : List UInt8} {b : UInt8} {before : List Char}
    (h : lossy (bs ++ [b]) = before ++ ['\r']) : b = 13 := by
  have hdecodes := Text.Utf8.decodes_iff.mpr h
  obtain ⟨bs', b', bs'', hbs, hb, hafter⟩ :=
    Text.Utf8.exists_of_decodes_append (by decide) hdecodes
  rw [Text.Utf8.eq_nil_of_decodes hafter] at hbs
  have hlast : b = b' := by simpa using (List.append_inj' hbs rfl).2
  rw [hlast]
  exact UInt8.toNat_inj.mp hb

/-- Taking the line break off a line takes the carriage returns off its text. -/
theorem lossy_rdropWhile_isBreak {line : List UInt8} (hline : lineFeed ∉ line) :
    lossy (line.rdropWhile isBreak) = (lossy line).rdropWhile (· = '\r') := by
  induction line using List.reverseRecOn with
  | nil => rfl
  | append_singleton line b ih =>
      by_cases hb : b = 13
      · have hread : lossy (line ++ [b]) = lossy line ++ ['\r'] := by
          rw [hb]
          exact Text.Utf8.lossy_append_ascii line (by decide) []
        rw [hread, List.rdropWhile_concat_pos _ _ _ (by simp [hb, isBreak]),
          List.rdropWhile_concat_pos _ _ _ (by simp)]
        exact ih fun hmem => hline (by simp [hmem])
      · have hfeed : b ≠ 10 := fun h => hline (by simp [h, lineFeed])
        rw [List.rdropWhile_concat_neg _ _ _ (by simp [isBreak, hb, hfeed]), eq_comm,
          List.rdropWhile_eq_self_iff]
        -- Only a carriage return could be read as one.
        intro htext hlast
        have hreturn : (lossy (line ++ [b])).getLast htext = '\r' := by simpa using hlast
        have hsplit := List.dropLast_append_getLast htext
        rw [hreturn] at hsplit
        exact hb (carriageReturn_of_lossy hsplit.symm)

/-- The records of a stream are the lines of its text without the carriage returns at their ends. -/
theorem records_eq_lines_of_text (bs : List UInt8) :
    records bs = (partsAt '\n' (lossy bs)).map fun line =>
      String.ofList (line.rdropWhile (· = '\r')) := by
  rw [records_eq_partsAt, partsAt_lossy, List.map_map]
  refine List.map_congr_left fun line hline => ?_
  have hfree := not_mem_of_mem_splitOn (mem_splitOn_of_mem_partsAt hline)
  exact congrArg String.ofList (lossy_rdropWhile_isBreak hfree)

namespace LineReader

/--
The lines of a stream are those of its text.  A stream of bytes has one text, with one replacement
character for each broken piece.  However the stream is cut into reads, its records are that text
cut at line feeds, each part without the carriage returns at its end.  Where the stream is the bytes
of a string its text is that string, and each record stands in it as it is, so that it has no
replacement character that the string does not have there.
-/
theorem results_eq_lines_of_text {pieces : List (List UInt8)}
    (hpieces : ∀ piece ∈ pieces, piece ≠ []) {ending : List Arrival}
    (hending : ending = [] ∨ ending = [.data []]) :
    (∃! text, Decodes pieces.flatten text) ∧
      (∀ text, Decodes pieces.flatten text →
        results (pieces.map .data ++ ending) =
          (partsAt '\n' text).map (fun line =>
              .text (String.ofList (line.rdropWhile (· = '\r')))) ++ [.endOfInput]) ∧
      ∀ s, pieces.flatten = Text.Utf8.bytes s →
        Decodes pieces.flatten s.toList ∧
          ∀ record, .text record ∈ results (pieces.map .data ++ ending) →
            record.toList <:+: s.toList := by
  have hlines (text : List Char) (htext : Decodes pieces.flatten text) :
      results (pieces.map .data ++ ending) =
        (partsAt '\n' text).map (fun line =>
            .text (String.ofList (line.rdropWhile (· = '\r')))) ++ [.endOfInput] := by
    rw [results_of_pieces hpieces hending, records_eq_lines_of_text,
      Text.Utf8.decodes_iff.mp htext, List.map_map]
    rfl
  refine ⟨⟨lossy pieces.flatten, Text.Utf8.decodes_lossy _, fun text htext => ?_⟩, hlines, ?_⟩
  · exact (Text.Utf8.decodes_iff.mp htext).symm
  · intro s hs
    have htext : Decodes pieces.flatten s.toList := by
      rw [Text.Utf8.decodes_iff, hs, Text.Utf8.lossy_bytes]
    refine ⟨htext, fun record hrecord => ?_⟩
    rw [hlines _ htext] at hrecord
    obtain ⟨line, hline, rfl⟩ : ∃ line ∈ partsAt '\n' s.toList,
        String.ofList (line.rdropWhile (· = '\r')) = record := by
      simpa using hrecord
    rw [String.toList_ofList]
    exact (List.rdropWhile_prefix _ _).isInfix.trans
      (infix_of_mem_splitOn (mem_splitOn_of_mem_partsAt hline))

/-- Three characters that break off, before a line feed, before a line break and at the end. -/
theorem results_of_brokenPieces :
    results ([[0xE2, 0x82], [10, 0xF0], [0x9F, 13], [10, 0xC3]].map .data ++ [.data []]) =
      [.text "\uFFFD", .text "\uFFFD", .text "\uFFFD", .endOfInput] := by
  have hpieces : ∀ piece ∈ ([[0xE2, 0x82], [10, 0xF0], [0x9F, 13], [10, 0xC3]] : List (List UInt8)),
      piece ≠ [] := by decide
  exact (results_eq_lines_of_text hpieces (.inr rfl)).2.1
    ['\uFFFD', '\n', '\uFFFD', '\r', '\n', '\uFFFD'] (Text.Utf8.decodes_iff.mpr (by decide))

end LineReader
end Framing
end VerifierSession
