import VerifierSession.Proofs.Lines

/-!
# Readers of lines

A reader hands out the records of all bytes that arrive, wherever the reads are cut.

* `LineReader.collect_of_append`: a call ends at the first line feed of all that is still to come;
* `LineReader.deliveries_data`: the results of calling until the input is used up.
-/

namespace VerifierSession
namespace Framing

theorem flatten_blocks (bytes : List UInt8) : (blocks bytes).flatten = bytes := by
  fun_induction blocks bytes with
  | case1 bytes _ => simp
  | case2 bytes _ ih => simp [ih]

theorem ne_nil_of_mem_blocks {bytes : List UInt8} (h : bytes ≠ []) :
    ∀ block ∈ blocks bytes, block ≠ [] := by
  fun_induction blocks bytes with
  | case1 bytes _ => simpa using h
  | case2 bytes hlong ih =>
      have hmore : bytes.drop bufferSize ≠ [] := by simpa using hlong
      intro block hblock
      rcases List.mem_cons.1 hblock with rfl | hlater
      · simp [bufferSize, h]
      · exact ih hmore block hlater

theorem reads_data (pieces : List (List UInt8)) :
    Arrival.reads (pieces.map .data) = (pieces.flatMap blocks).map .data := by
  simp [Arrival.reads, List.flatMap_map, List.map_flatMap]

namespace LineReader

variable {line buffered first rest : List UInt8} {pieces : List (List UInt8)}

section Collect

variable (h : lineFeed ∉ buffered)
include h

theorem collect_lineFeed (line behind : List UInt8) (arrivals : List Arrival) :
    collect line (buffered ++ lineFeed :: behind) arrivals =
      (.text (lineText (line ++ buffered)), ⟨behind, arrivals⟩) := by
  rw [collect.eq_def, dropWhile_lineFeed h, takeWhile_lineFeed h]

theorem collect_nil (line : List UInt8) :
    collect line buffered [] = (atEnd (line ++ buffered), ⟨[], []⟩) := by
  rw [collect.eq_def, dropWhile_of_not_mem h]

/-- Where nothing that was read ahead ends the line, what arrives next belongs to it. -/
theorem collect_cons (line : List UInt8) {piece : List UInt8} (hpiece : piece ≠ [])
    (arrivals : List Arrival) :
    collect line buffered (.data piece :: arrivals) =
      collect (line ++ buffered) piece arrivals := by
  cases piece with
  | nil => exact absurd rfl hpiece
  | cons b bs => rw [collect.eq_def, dropWhile_of_not_mem h]

end Collect

/-- Where something that was read ahead ends the line, nothing more is read. -/
theorem collect_of_mem (hmem : lineFeed ∈ buffered) (hline : lineFeed ∉ line)
    (hfirst : lineFeed ∉ first) {more : List UInt8}
    (hall : line ++ (buffered ++ more) = first ++ lineFeed :: rest) (arrivals : List Arrival) :
    ∃ behind, behind ++ more = rest ∧
      collect line buffered arrivals = (.text (lineText first), ⟨behind, arrivals⟩) := by
  rcases List.eq_append_cons_of_mem hmem with ⟨before, behind, rfl, hbefore⟩
  have hsplit : (line ++ before) ++ lineFeed :: (behind ++ more) = first ++ lineFeed :: rest := by
    simpa using hall
  have hnot : lineFeed ∉ line ++ before := by simp [hline, hbefore]
  rcases eq_of_append_lineFeed hnot hfirst hsplit with ⟨rfl, rfl⟩
  exact ⟨behind, rfl, collect_lineFeed hbefore line behind arrivals⟩

section Data

variable (hpieces : ∀ piece ∈ pieces, piece ≠ [])
include hpieces

theorem collect_of_not_mem (h : lineFeed ∉ buffered ++ pieces.flatten) (line : List UInt8) :
    collect line buffered (pieces.map .data) =
      (atEnd (line ++ (buffered ++ pieces.flatten)), ⟨[], []⟩) := by
  -- The pieces are used up one by one, and what was read of the line grows.
  induction pieces generalizing line buffered with
  | nil =>
      have hnot : lineFeed ∉ buffered := by simpa using h
      simp [collect_nil hnot]
  | cons piece pieces ih =>
      simp only [List.flatten_cons, List.mem_append, not_or] at h
      rcases h with ⟨hnot, hrest⟩
      have hlater := ih (fun p hp => hpieces p (List.mem_cons_of_mem _ hp))
        (by simpa using hrest) (line ++ buffered)
      rw [List.map_cons, collect_cons hnot line (hpieces piece List.mem_cons_self), hlater]
      simp

/-- The first line ends at the first line feed of all that arrives. -/
theorem collect_of_append (hline : lineFeed ∉ line) (hfirst : lineFeed ∉ first)
    (hall : line ++ (buffered ++ pieces.flatten) = first ++ lineFeed :: rest) :
    ∃ (behind : List UInt8) (left : List (List UInt8)),
      behind ++ left.flatten = rest ∧ (∀ piece ∈ left, piece ≠ []) ∧
        collect line buffered (pieces.map .data) =
          (.text (lineText first), ⟨behind, left.map .data⟩) := by
  induction pieces generalizing line buffered with
  | nil =>
      have hmem : lineFeed ∈ line ++ (buffered ++ List.flatten []) := by
        rw [hall]
        simp
      replace hmem : lineFeed ∈ buffered := by simpa [hline] using hmem
      rcases collect_of_mem hmem hline hfirst hall [] with ⟨behind, hrest, hcollect⟩
      exact ⟨behind, [], hrest, hpieces, hcollect⟩
  | cons piece pieces ih =>
      by_cases hmem : lineFeed ∈ buffered
      · rcases collect_of_mem hmem hline hfirst hall (.data piece :: pieces.map .data) with
          ⟨behind, hrest, hcollect⟩
        exact ⟨behind, piece :: pieces, hrest, hpieces, hcollect⟩
      · have hlonger : lineFeed ∉ line ++ buffered := by simp [hline, hmem]
        rcases ih (fun p hp => hpieces p (List.mem_cons_of_mem _ hp)) hlonger
          (by simpa using hall) with ⟨behind, left, hrest, hleft, hcollect⟩
        refine ⟨behind, left, hrest, hleft, ?_⟩
        rw [List.map_cons, collect_cons hmem line (hpieces piece List.mem_cons_self), hcollect]

end Data

theorem deliveries_of_text {r r' : LineReader} {s : String} (h : r.next = (.text s, r')) :
    r.deliveries = .text s :: r'.deliveries := by
  have hspent : r.isSpent ≠ true := by
    intro hspent
    have hnothing : r = ⟨[], []⟩ := by
      rcases r with ⟨buffered, arrivals⟩
      simpa [isSpent] using hspent
    rw [hnothing] at h
    cases h
  rw [deliveries, dif_neg hspent, h]
  simp

theorem deliveries_of_end {r r' : LineReader} (h : r.next = (.endOfInput, r'))
    (hspent : r'.isSpent = true) : r.deliveries = [.endOfInput] := by
  rw [deliveries]
  split
  · rfl
  · simp [h, hspent]

/-- However bytes arrive, their records are handed out, and then the end of the input. -/
theorem deliveries_data (buffered : List UInt8) (pieces : List (List UInt8))
    (hpieces : ∀ piece ∈ pieces, piece ≠ []) :
    (LineReader.mk buffered (pieces.map .data)).deliveries =
      (records (buffered ++ pieces.flatten)).map .text ++ [.endOfInput] := by
  -- By induction on the bytes that are left, as a call may use up any number of pieces.
  induction hn : (buffered ++ pieces.flatten).length using Nat.strongRecOn
    generalizing buffered pieces with
  | ind n ih =>
      by_cases hmem : lineFeed ∈ buffered ++ pieces.flatten
      · -- The first line is handed out, and what is left is shorter.
        rcases List.eq_append_cons_of_mem hmem with ⟨first, rest, hall, hfirst⟩
        rcases collect_of_append hpieces List.not_mem_nil hfirst hall with
          ⟨behind, left, rfl, hleft, hcollect⟩
        have hnext : (LineReader.mk buffered (pieces.map .data)).next =
            (.text (lineText first), ⟨behind, left.map .data⟩) := hcollect
        have hshorter : (behind ++ left.flatten).length < n := by
          rw [← hn, hall]
          simp only [List.length_append, List.length_cons]
          omega
        have hrest := ih _ hshorter behind left hleft rfl
        rw [deliveries_of_text hnext, hrest, hall, records_append_lineFeed hfirst]
        simp
      · have hnext : (LineReader.mk buffered (pieces.map .data)).next =
            (atEnd (buffered ++ pieces.flatten), ⟨[], []⟩) := collect_of_not_mem hpieces hmem []
        -- Only a tail is left: nothing, or one more line.
        rw [records_of_not_mem hmem]
        cases hempty : (buffered ++ pieces.flatten).isEmpty with
        | true =>
            have hend : atEnd (buffered ++ pieces.flatten) = .endOfInput := by simp [atEnd, hempty]
            rw [hend] at hnext
            exact deliveries_of_end hnext rfl
        | false =>
            have htext : atEnd (buffered ++ pieces.flatten) =
                .text (lineText (buffered ++ pieces.flatten)) := by simp [atEnd, hempty]
            rw [htext] at hnext
            have hspent : (LineReader.mk [] []).deliveries = [.endOfInput] :=
              deliveries_of_end rfl rfl
            simp [deliveries_of_text hnext, hspent]

end LineReader
end Framing
end VerifierSession
