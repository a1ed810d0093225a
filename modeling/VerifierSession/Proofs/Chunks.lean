import Mathlib.Data.List.DropRight
import Mathlib.Data.List.Forall2
import VerifierSession.Framing.Chunk
import VerifierSession.Proofs.Decoding
import VerifierSession.Proofs.Reader

/-!
# Chunks, read by read

Each read is answered by one call or by none.  A read of blanks alone is passed over, and the call
goes on with the read behind it; every other read is answered before the next one is made.

* `Text.Trims`: a text without the blanks at its two ends, which `Text.trim` is (`Text.trims_trim`);
* `Buffered`: the reads that a script is made with;
* `Answers`: what a read is answered with, and `nextChunk_blanks` for those that are not answered;
* `chunkDeliveries_of_script`: the reads that are not blank and the results go together one by one.
-/

namespace VerifierSession

namespace Text

/-- One text is another without the blanks at its two ends. -/
structure Trims (text core : List Char) : Prop where
  parts : ∃ front back, text = front ++ (core ++ back) ∧
    (∀ c ∈ front, isBlank c = true) ∧ ∀ c ∈ back, isBlank c = true
  first : ∀ c, core.head? = some c → isBlank c = false
  last : ∀ c, core.getLast? = some c → isBlank c = false

theorem trim_eq (text : List Char) :
    trim text = (text.dropWhile isBlank).rdropWhile isBlank := rfl

theorem trims_trim (text : List Char) : Trims text (trim text) := by
  have hprefix : trim text <+: text.dropWhile isBlank := List.rdropWhile_prefix _ _
  refine ⟨⟨text.takeWhile isBlank, (text.dropWhile isBlank).rtakeWhile isBlank, ?_, ?_, ?_⟩, ?_, ?_⟩
  · rw [trim_eq, List.rdropWhile_append_rtakeWhile, List.takeWhile_append_dropWhile]
  · exact fun c hc => List.mem_takeWhile_imp hc
  · exact fun c hc => List.mem_rtakeWhile_imp hc
  · -- What is first of the trimmed text was first before its end was trimmed.
    intro c hc
    obtain ⟨back, hback⟩ := hprefix
    have hfirst : (text.dropWhile isBlank).head? = some c := by
      rw [← hback, List.head?_append, hc]
      rfl
    have hstop := List.head?_dropWhile_not isBlank text
    simpa [hfirst] using hstop
  · intro c hc
    obtain ⟨core, hcore⟩ := List.getLast?_eq_some_iff.1 hc
    rw [trim_eq] at hcore
    have hstop := List.rdropWhile_last_not isBlank (text.dropWhile isBlank) (by simp [hcore])
    simpa [hcore] using hstop

theorem trim_eq_nil_iff (text : List Char) : trim text = [] ↔ ∀ c ∈ text, isBlank c = true := by
  constructor
  · intro hnil
    obtain ⟨front, back, htext, hfront, hback⟩ := (trims_trim text).parts
    rw [hnil, List.nil_append] at htext
    intro c hc
    rw [htext, List.mem_append] at hc
    exact hc.elim (hfront c) (hback c)
  · intro hblank
    have hnone : text.dropWhile isBlank = [] := List.dropWhile_eq_nil_iff.2 hblank
    rw [trim_eq, hnone, List.rdropWhile_nil]

end Text

namespace Framing

/-! ## Reads of a script -/

/--
The reads that a script is made with.  What the buffer holds is one read; what is longer comes in
full buffers and a rest.
-/
inductive Buffered : List Arrival → List Arrival → Prop where
  | nil : Buffered [] []
  | failure (reason : String) {script reads : List Arrival} : Buffered script reads →
      Buffered (.failure reason :: script) (.failure reason :: reads)
  | data {full : List (List UInt8)} {rest : List UInt8} {script reads : List Arrival} :
      (∀ block ∈ full, block.length = 8192) → rest.length ≤ 8192 → (rest = [] → full = []) →
      Buffered script reads →
      Buffered (.data (full.flatten ++ rest) :: script) (full.map .data ++ .data rest :: reads)

theorem exists_blocks_eq (bytes : List UInt8) :
    ∃ full rest, blocks bytes = full ++ [rest] ∧ bytes = full.flatten ++ rest ∧
      (∀ block ∈ full, block.length = 8192) ∧ rest.length ≤ 8192 ∧ (rest = [] → full = []) := by
  fun_induction blocks bytes with
  | case1 bytes hshort =>
      exact ⟨[], bytes, rfl, rfl, by simp, hshort, fun _ => rfl⟩
  | case2 bytes hlong ih =>
      obtain ⟨full, rest, hblocks, hbytes, hfull, hrest, hempty⟩ := ih
      have hlength : (bytes.take bufferSize).length = 8192 := by
        rw [List.length_take]
        simp only [bufferSize] at hlong ⊢
        omega
      refine ⟨bytes.take bufferSize :: full, rest, by rw [hblocks]; rfl, ?_, ?_, hrest, ?_⟩
      · rw [List.flatten_cons, List.append_assoc, ← hbytes, List.take_append_drop]
      · intro block hblock
        rcases List.mem_cons.1 hblock with rfl | hlater
        · exact hlength
        · exact hfull block hlater
      · -- There are bytes behind a full block, so the rest has some.
        intro hnone
        have hbehind : bytes.drop bufferSize = [] := by simp [hbytes, hempty hnone, hnone]
        exact absurd (List.drop_eq_nil_iff.1 hbehind) hlong

theorem buffered_reads (script : List Arrival) : Buffered script (Arrival.reads script) := by
  induction script with
  | nil => exact .nil
  | cons arrival script ih =>
      cases arrival with
      | failure reason => exact .failure reason ih
      | data bytes =>
          obtain ⟨full, rest, hblocks, hbytes, hfull, hrest, hempty⟩ := exists_blocks_eq bytes
          have hreads : Arrival.reads (.data bytes :: script) =
              full.map .data ++ .data rest :: Arrival.reads script := by
            simp [Arrival.reads, hblocks]
          rw [hreads, hbytes]
          exact .data hfull hrest hempty ih

/-! ## One call -/

/-- Whether a read brings text, but nothing except blanks. -/
def Arrival.isBlank : Arrival → Bool
  | .data bytes => !bytes.isEmpty && (Text.Utf8.lossy bytes).all Text.isBlank
  | .failure _ => false

/-- What a read is answered with: an end, a failure, or its text without the blanks at its ends. -/
inductive Answers : Arrival → Delivery → Prop where
  | endOfInput : Answers (.data []) .endOfInput
  | failure (reason : String) : Answers (.failure reason) (.failure reason)
  | text {bytes : List UInt8} {text core : List Char} : Text.Utf8.Decodes bytes text →
      Text.Trims text core → core ≠ [] → Answers (.data bytes) (.text (String.ofList core))

theorem isEmpty_chunkText_iff (bytes : List UInt8) :
    (chunkText bytes).isEmpty = true ↔ ∀ c ∈ Text.Utf8.lossy bytes, Text.isBlank c = true := by
  rw [← Text.trim_eq_nil_iff, chunkText, String.isEmpty_iff]
  simp

theorem nextChunk_blanks {blanks : List Arrival} (h : ∀ read ∈ blanks, read.isBlank = true)
    (reads : List Arrival) : nextChunk (blanks ++ reads) = nextChunk reads := by
  induction blanks with
  | nil => rfl
  | cons blank blanks ih =>
      have hfirst := h blank List.mem_cons_self
      have hlater := ih fun read hread => h read (List.mem_cons_of_mem _ hread)
      cases blank with
      | failure reason => cases hfirst
      | data bytes =>
          obtain ⟨hbytes, hblank⟩ : bytes ≠ [] ∧
              ∀ c ∈ Text.Utf8.lossy bytes, Text.isBlank c = true := by
            simpa [Arrival.isBlank] using hfirst
          rw [List.cons_append, nextChunk.eq_4 _ _ hbytes,
            if_pos ((isEmpty_chunkText_iff bytes).2 hblank), hlater]

theorem nextChunk_answers {read : Arrival} (h : read.isBlank = false) (reads : List Arrival) :
    ∃ delivery, Answers read delivery ∧ nextChunk (read :: reads) = (delivery, reads) := by
  cases read with
  | failure reason => exact ⟨_, .failure reason, rfl⟩
  | data bytes =>
      by_cases hbytes : bytes = []
      · subst hbytes
        exact ⟨_, .endOfInput, rfl⟩
      · have htext : ¬ (chunkText bytes).isEmpty = true := by
          rw [isEmpty_chunkText_iff]
          simpa [Arrival.isBlank, hbytes] using h
        have hcore : Text.trim (Text.Utf8.lossy bytes) ≠ [] := by
          rwa [Ne, Text.trim_eq_nil_iff, ← isEmpty_chunkText_iff]
        refine ⟨_, .text (Text.Utf8.decodes_lossy bytes) (Text.trims_trim _) hcore, ?_⟩
        rw [nextChunk.eq_4 _ _ hbytes, if_neg htext]
        rfl

/-! ## All calls -/

theorem exists_answers {reads : List Arrival} {given : List Delivery}
    (h : List.Forall₂ Answers reads given) {delivery : Delivery} (hmem : delivery ∈ given) :
    ∃ read, Answers read delivery := by
  induction h with
  | nil => cases hmem
  | cons hfirst _ ih =>
      rcases List.mem_cons.1 hmem with rfl | hlater
      · exact ⟨_, hfirst⟩
      · exact ih hlater

/-- Calling ends with an end of the input that nothing is left behind. -/
theorem chunkDeliveriesFrom_of_nextChunk {reads rest : List Arrival} {delivery : Delivery}
    (h : nextChunk reads = (delivery, rest)) :
    chunkDeliveriesFrom reads =
      if delivery = .endOfInput ∧ rest = [] then [.endOfInput]
      else delivery :: chunkDeliveriesFrom rest := by
  cases reads with
  | nil =>
      cases h
      rw [chunkDeliveriesFrom, if_pos ⟨rfl, rfl⟩]
  | cons read reads =>
      rw [chunkDeliveriesFrom]
      simp only [h, List.isEmpty_iff]

theorem chunkDeliveriesFrom_blank {read : Arrival} (h : read.isBlank = true)
    (reads : List Arrival) : chunkDeliveriesFrom (read :: reads) = chunkDeliveriesFrom reads := by
  have hnext : nextChunk (read :: reads) = nextChunk reads :=
    @nextChunk_blanks [read] (by simpa using h) reads
  rw [chunkDeliveriesFrom_of_nextChunk hnext, ← chunkDeliveriesFrom_of_nextChunk rfl]

/-- The reads that are not blank are answered in order, and then the end is reported, once. -/
theorem chunkDeliveriesFrom_answers (reads : List Arrival) :
    ∃ given, List.Forall₂ Answers (reads.filter fun read => !read.isBlank) given ∧
      chunkDeliveriesFrom reads =
        given ++ if reads.getLast? = some (.data []) then [] else [.endOfInput] := by
  induction reads with
  | nil => exact ⟨[], .nil, by simp [chunkDeliveriesFrom]⟩
  | cons read reads ih =>
      obtain ⟨given, hgiven, hlater⟩ := ih
      by_cases hend : read = .data [] ∧ reads = []
      · -- The last read reports the end itself.
        obtain ⟨rfl, rfl⟩ := hend
        have hnext : nextChunk [.data []] = (.endOfInput, []) := rfl
        refine ⟨[.endOfInput], .cons .endOfInput .nil, ?_⟩
        rw [chunkDeliveriesFrom_of_nextChunk hnext]
        simp
      · have hlast : (read :: reads).getLast? = some (.data []) ↔
            reads.getLast? = some (.data []) := by
          cases reads with
          | nil => simpa using hend
          | cons next reads => simp
        simp only [hlast]
        cases hblank : read.isBlank with
        | true =>
            refine ⟨given, by simpa [hblank] using hgiven, ?_⟩
            rw [chunkDeliveriesFrom_blank hblank, hlater]
        | false =>
            obtain ⟨delivery, hanswers, hnext⟩ := nextChunk_answers hblank reads
            have hmore : ¬ (delivery = .endOfInput ∧ reads = []) := by
              rintro ⟨rfl, hnone⟩
              cases hanswers
              exact hend ⟨rfl, hnone⟩
            refine ⟨delivery :: given, ?_, ?_⟩
            · rw [List.filter_cons_of_pos (by simp [hblank])]
              exact .cons hanswers hgiven
            · rw [chunkDeliveriesFrom_of_nextChunk hnext, if_neg hmore, hlater, List.cons_append]

/--
What calling for chunks gives for a script of reads.  The script is read with a buffer of 8192
bytes.  The reads that bring something else than blanks and the results go together one by one and
in order: a read of no bytes and the end, a failing read and its failure, any other read and its
text without the blanks at its two ends.  The end is reported once more only if the last read has
not reported it.  So a chunk is never empty, and begins and ends with a character that is not blank.
One call passes over any number of blank reads and gives what the read behind them is answered with.
-/
theorem chunkDeliveries_of_script (script : List Arrival) :
    Buffered script (Arrival.reads script) ∧
      (∃ given,
        List.Forall₂ Answers ((Arrival.reads script).filter fun read => !read.isBlank) given ∧
        chunkDeliveries script = given ++
          if (Arrival.reads script).getLast? = some (.data []) then [] else [.endOfInput]) ∧
      (∀ s, .text s ∈ chunkDeliveries script → s.toList ≠ [] ∧
        (∀ c, s.toList.head? = some c → Text.isBlank c = false) ∧
        ∀ c, s.toList.getLast? = some c → Text.isBlank c = false) ∧
      ∀ blanks read reads, (∀ blank ∈ blanks, blank.isBlank = true) → read.isBlank = false →
        ∃ delivery, Answers read delivery ∧
          nextChunk (blanks ++ read :: reads) = (delivery, reads) := by
  obtain ⟨given, hgiven, hall⟩ := chunkDeliveriesFrom_answers (Arrival.reads script)
  refine ⟨buffered_reads script, ⟨given, hgiven, hall⟩, ?_, ?_⟩
  · intro s hs
    rw [chunkDeliveries, hall, List.mem_append] at hs
    have hmem : .text s ∈ given := by
      refine hs.resolve_right fun hextra => ?_
      split at hextra
      · cases hextra
      · cases List.mem_singleton.1 hextra
    obtain ⟨read, hread⟩ := exists_answers hgiven hmem
    cases hread with
    | text _ htrims hcore =>
        rw [String.toList_ofList]
        exact ⟨hcore, htrims.first, htrims.last⟩
  · intro blanks read reads hblanks hread
    rw [nextChunk_blanks hblanks]
    exact nextChunk_answers hread reads

/-- Two blank reads, a failing one, and one with text. -/
def blankScript : List Arrival :=
  [.data [32, 10], .data [194, 160], .failure "gone", .data [120]]

/-- The failure behind the blanks is not lost, and ends nothing. -/
theorem nextChunk_of_blankScript :
    (∀ blank ∈ [Arrival.data [32, 10], .data [194, 160]], blank.isBlank = true) ∧
      (Arrival.failure "gone").isBlank = false ∧
      nextChunk blankScript = (.failure "gone", [.data [120]]) := by
  have hblanks : ∀ blank ∈ [Arrival.data [32, 10], .data [194, 160]], blank.isBlank = true := by
    decide +kernel
  obtain ⟨delivery, hanswers, hnext⟩ := (chunkDeliveries_of_script blankScript).2.2.2
    [.data [32, 10], .data [194, 160]] (.failure "gone") [.data [120]] hblanks rfl
  cases hanswers
  exact ⟨hblanks, rfl, hnext⟩

end Framing
end VerifierSession
