import Mathlib.Data.List.DropRight
import Mathlib.Logic.Relation
import VerifierSession.Proofs.Reader

/-!
# Streams that end or fail on the way

A script of reads brings stretches of bytes.  Between them there are reads of no bytes, which end a
line that is begun, and reads that fail, which lose it.  Where the reads cut a stretch makes no
difference.

* `harvest`: what a script comes to, stretch by stretch;
* `LineReader.deliveries_eq`: a reader hands that out, one result at a call;
* `LineReader.deliveries_of_script`: so no line is lost or changed but one that is begun when a read
  fails.
-/

namespace VerifierSession
namespace Framing

/-! ## Lines between separators -/

/-- The parts of a list between separators; the last one counts if it is not empty. -/
def partsAt {α : Type} [DecidableEq α] (separator : α) (xs : List α) : List (List α) :=
  if (xs.splitOn separator).getLast? = some [] then (xs.splitOn separator).dropLast
  else xs.splitOn separator

theorem records_eq_partsAt (bytes : List UInt8) :
    records bytes = (partsAt lineFeed bytes).map lineText := by
  unfold partsAt
  rw [splitOn_lineFeed]
  by_cases hempty : (cut bytes).2 = []
  · simp [records, lines, lastLine, hempty]
  · simp [records, lines, lastLine, hempty]

/-! ## Scripts of reads -/

/-- Two scripts differ in one read, which the second one cuts in two. -/
inductive Recut : List Arrival → List Arrival → Prop where
  | cut (before after : List Arrival) {first second : List UInt8} :
      first ≠ [] → second ≠ [] →
      Recut (before ++ .data (first ++ second) :: after)
        (before ++ .data first :: .data second :: after)

/-- Whether a read ends or fails, so that nothing goes on behind it. -/
def Arrival.interrupts : Arrival → Bool
  | .data bytes => bytes.isEmpty
  | .failure _ => true

/-- What reads come to: the results that they give, and the line that they leave begun. -/
structure Reading where
  given : List Delivery
  begun : List UInt8

namespace Reading

def after (delivery : Delivery) (r : Reading) : Reading :=
  ⟨delivery :: r.given, r.begun⟩

/--
The results of calling until the end of the input is reported and nothing is left: a line that is
begun is given, and then the end, unless it was the last that was reported.
-/
def concluded (r : Reading) : List Delivery :=
  if r.begun ≠ [] then r.given ++ [.text (lineText r.begun), .endOfInput]
  else if r.given.getLast? = some .endOfInput then r.given
  else r.given ++ [.endOfInput]

/-- Only an end that nothing follows is reported once and for all. -/
theorem concluded_append (given : List Delivery) (delivery : Delivery) (r : Reading)
    (h : delivery = .endOfInput → r.given = [] → r.begun ≠ []) :
    concluded ⟨given ++ delivery :: r.given, r.begun⟩ = given ++ delivery :: r.concluded := by
  by_cases hbegun : r.begun = []
  · have hlast : (given ++ delivery :: r.given).getLast? = some .endOfInput ↔
        r.given.getLast? = some .endOfInput := by
      cases hgiven : r.given with
      | nil =>
          have hmore : delivery ≠ .endOfInput := fun hend => h hend hgiven hbegun
          simp [hmore]
      | cons first more => simp
    by_cases hend : r.given.getLast? = some .endOfInput
    · simp only [concluded, hbegun, hlast, hend, ne_eq, not_true_eq_false, if_false, if_true]
    · simp only [concluded, hbegun, hlast, hend, ne_eq, not_true_eq_false, if_false,
        List.append_assoc, List.cons_append]
  · simp only [concluded, hbegun, ne_eq, not_false_eq_true, if_true, List.append_assoc,
      List.cons_append]

end Reading

/--
What a script comes to behind a stretch of bytes.  The bytes of a stretch are cut at line feeds when
it is over, wherever the reads cut them: its lines are given, and what is begun is given at a read
of no bytes and lost at one that fails.
-/
def harvest (stretch : List UInt8) (script : List Arrival) : Reading :=
  match script with
  | [] => ⟨(lines stretch).map .text, (cut stretch).2⟩
  | .failure reason :: script =>
      ⟨(lines stretch).map .text ++ .failure reason :: (harvest [] script).given,
        (harvest [] script).begun⟩
  | .data bytes :: script =>
      if bytes = [] then
        ⟨(lines stretch).map .text ++
            LineReader.atEnd (cut stretch).2 :: (harvest [] script).given,
          (harvest [] script).begun⟩
      else harvest (stretch ++ bytes) script

/-- A first line is given first, and the rest goes on without it. -/
theorem harvest_append_lineFeed {line : List UInt8} (hline : lineFeed ∉ line)
    (stretch : List UInt8) (script : List Arrival) :
    harvest (line ++ lineFeed :: stretch) script =
      (harvest stretch script).after (.text (lineText line)) := by
  induction script generalizing stretch with
  | nil => simp [harvest, Reading.after, lines, cut_append_lineFeed hline]
  | cons arrival script ih =>
      cases arrival with
      | failure reason => simp [harvest, Reading.after, lines, cut_append_lineFeed hline]
      | data bytes =>
          by_cases hbytes : bytes = []
          · simp [harvest, hbytes, Reading.after, lines, cut_append_lineFeed hline]
          · have hrest := ih (stretch ++ bytes)
            simpa [harvest, hbytes] using hrest

theorem harvest_data (stretch : List UInt8) {pieces : List (List UInt8)}
    (hpieces : ∀ piece ∈ pieces, piece ≠ []) (script : List Arrival) :
    harvest stretch (pieces.map .data ++ script) = harvest (stretch ++ pieces.flatten) script := by
  induction pieces generalizing stretch with
  | nil => simp
  | cons piece pieces ih =>
      have hpiece : piece ≠ [] := hpieces piece List.mem_cons_self
      have hrest := ih (stretch ++ piece) fun p hp => hpieces p (List.mem_cons_of_mem _ hp)
      simpa [harvest, hpiece] using hrest

/-- What was begun is lost when a read fails, and nothing else is. -/
theorem harvest_append_failure (stretch : List UInt8) (before : List Arrival) (reason : String)
    (after : List Arrival) :
    harvest stretch (before ++ .failure reason :: after) =
      ⟨(harvest stretch before).given ++ .failure reason :: (harvest [] after).given,
        (harvest [] after).begun⟩ := by
  fun_induction harvest stretch before with
  | case1 => simp [harvest]
  | case2 stretch reason' before ih => simp [harvest, ih]
  | case3 stretch before ih => simp [harvest, ih]
  | case4 stretch bytes before hbytes ih => simpa [harvest, hbytes] using ih

/-- What was begun is given when a read brings no bytes. -/
theorem harvest_append_end (stretch : List UInt8) (before after : List Arrival) :
    harvest stretch (before ++ .data [] :: after) =
      ⟨(harvest stretch before).given ++
          LineReader.atEnd (harvest stretch before).begun :: (harvest [] after).given,
        (harvest [] after).begun⟩ := by
  fun_induction harvest stretch before with
  | case1 => simp [harvest]
  | case2 stretch reason before ih => simp [harvest, ih]
  | case3 stretch before ih => simp [harvest, ih]
  | case4 stretch bytes before hbytes ih => simpa [harvest, hbytes] using ih

theorem eq_nil_of_cut {bytes : List UInt8} (h : cut bytes = ([], [])) : bytes = [] := by
  cases bytes with
  | nil => rfl
  | cons b bytes =>
      by_cases hb : b = lineFeed
      · rw [hb, cut_lineFeed] at h
        cases h
      · cases hbytes : (cut bytes).1 with
        | nil =>
            rw [cut_cons_of_nil hb hbytes] at h
            cases h
        | cons piece pieces =>
            rw [cut_cons_of_cons hb hbytes] at h
            cases h

/-- Only a script without reads comes to nothing at all. -/
theorem eq_nil_of_harvest {stretch : List UInt8} {script : List Arrival}
    (hgiven : (harvest stretch script).given = []) (hbegun : (harvest stretch script).begun = []) :
    stretch = [] ∧ script = [] := by
  fun_induction harvest stretch script with
  | case1 stretch =>
      have hlines : (cut stretch).1 = [] := by simpa [lines] using hgiven
      exact ⟨eq_nil_of_cut (Prod.ext hlines hbegun), rfl⟩
  | case2 stretch reason script ih => simp at hgiven
  | case3 stretch script ih => simp at hgiven
  | case4 stretch bytes script hbytes ih =>
      have hnil := (ih hgiven hbegun).1
      simp [hbytes] at hnil

/-- Behind a read that ends or fails, a script goes on as it would by itself. -/
theorem harvest_append_script {before : List Arrival}
    (hbefore : ∀ stop, before.getLast? = some stop → stop.interrupts = true)
    (script : List Arrival) :
    harvest [] (before ++ script) =
      ⟨(harvest [] before).given ++ (harvest [] script).given, (harvest [] script).begun⟩ := by
  rcases List.eq_nil_or_concat before with rfl | ⟨earlier, stop, rfl⟩
  · simp [harvest, lines]
  · have hstop : stop.interrupts = true := hbefore stop (by simp)
    rw [List.concat_eq_append, List.append_assoc, List.singleton_append]
    cases stop with
    | failure reason =>
        rw [harvest_append_failure, harvest_append_failure]
        simp [harvest, lines]
    | data bytes =>
        have hnone : bytes = [] := by simpa [Arrival.interrupts] using hstop
        rw [hnone, harvest_append_end, harvest_append_end]
        simp [harvest, lines]

theorem harvest_recut {script script' : List Arrival} (h : Recut script script')
    (stretch : List UInt8) : harvest stretch script = harvest stretch script' := by
  rcases h with @⟨before, after, first, second, hfirst, hsecond⟩
  fun_induction harvest stretch before with
  | case1 stretch => simp [harvest, hfirst, hsecond]
  | case2 stretch reason before ih => simp [harvest, ih]
  | case3 stretch before ih => simp [harvest, ih]
  | case4 stretch bytes before hbytes ih => simpa [harvest, hbytes] using ih

theorem blocks_nil : blocks [] = [[]] := by
  rw [blocks, if_pos (by simp)]

theorem harvest_reads (stretch : List UInt8) (script : List Arrival) :
    harvest stretch (Arrival.reads script) = harvest stretch script := by
  fun_induction harvest stretch script with
  | case1 => rfl
  | case2 stretch reason script ih =>
      have hreads : Arrival.reads (.failure reason :: script) =
          .failure reason :: Arrival.reads script := rfl
      simp [hreads, harvest, ih]
  | case3 stretch script ih =>
      have hreads : Arrival.reads (.data [] :: script) =
          (blocks []).map .data ++ Arrival.reads script := rfl
      simp [hreads, blocks_nil, harvest, ih]
  | case4 stretch bytes script hbytes ih =>
      have hreads : Arrival.reads (.data bytes :: script) =
          (blocks bytes).map .data ++ Arrival.reads script := rfl
      rw [hreads, harvest_data _ (ne_nil_of_mem_blocks hbytes), flatten_blocks, ih]

namespace LineReader

/-! ## Calls -/

/-- Where a line feed was read ahead, one call gives the line that it ends. -/
theorem collect_of_lineFeed {line buffered : List UInt8} (hline : lineFeed ∉ line)
    (hmem : lineFeed ∈ buffered) (arrivals : List Arrival) :
    ∃ delivery r, collect line buffered arrivals = (delivery, r) ∧
      harvest (line ++ buffered) arrivals = (harvest r.buffered r.arrivals).after delivery := by
  rcases List.eq_append_cons_of_mem hmem with ⟨before, behind, rfl, hbefore⟩
  have hfirst : lineFeed ∉ line ++ before := by simp [hline, hbefore]
  refine ⟨_, ⟨behind, arrivals⟩, collect_lineFeed hbefore line behind arrivals, ?_⟩
  rw [← List.append_assoc, harvest_append_lineFeed hfirst]

/--
One call gives the first result of what the script comes to, and leaves what gives the others; where
the script gives none, it is used up and a line that is begun is ended.
-/
theorem collect_cases {line : List UInt8} (hline : lineFeed ∉ line) (buffered : List UInt8)
    (arrivals : List Arrival) :
    (∃ delivery r, collect line buffered arrivals = (delivery, r) ∧
      harvest (line ++ buffered) arrivals = (harvest r.buffered r.arrivals).after delivery) ∨
    ∃ left, collect line buffered arrivals = (atEnd left, ⟨[], []⟩) ∧
      harvest (line ++ buffered) arrivals = ⟨[], left⟩ := by
  induction arrivals generalizing line buffered with
  | nil =>
      by_cases hmem : lineFeed ∈ buffered
      · exact .inl (collect_of_lineFeed hline hmem [])
      · have hlonger : lineFeed ∉ line ++ buffered := by simp [hline, hmem]
        refine .inr ⟨line ++ buffered, collect_nil hmem line, ?_⟩
        simp [harvest, lines, cut_of_not_mem hlonger]
  | cons arrival arrivals ih =>
      by_cases hmem : lineFeed ∈ buffered
      · exact .inl (collect_of_lineFeed hline hmem _)
      · have hlonger : lineFeed ∉ line ++ buffered := by simp [hline, hmem]
        cases arrival with
        | failure reason =>
            refine .inl ⟨.failure reason, ⟨[], arrivals⟩, ?_, ?_⟩
            · rw [collect.eq_def, dropWhile_of_not_mem hmem]
            · simp [harvest, Reading.after, lines, cut_of_not_mem hlonger]
        | data bytes =>
            by_cases hbytes : bytes = []
            · subst hbytes
              refine .inl ⟨atEnd (line ++ buffered), ⟨[], arrivals⟩, ?_, ?_⟩
              · rw [collect.eq_def, dropWhile_of_not_mem hmem]
              · simp [harvest, Reading.after, lines, cut_of_not_mem hlonger]
            · -- What arrives goes on with the line.
              rw [collect_cons hmem line hbytes, harvest, if_neg hbytes]
              exact ih hlonger bytes

theorem eq_of_isSpent {r : LineReader} (h : r.isSpent = true) : r = ⟨[], []⟩ := by
  rcases r with ⟨buffered, arrivals⟩
  simpa [isSpent] using h

/-- A reader hands out what its script comes to, one result at a call. -/
theorem deliveries_eq (r : LineReader) :
    r.deliveries = (harvest r.buffered r.arrivals).concluded := by
  -- By induction on what is left to read.
  induction hn : r.size using Nat.strongRecOn generalizing r with
  | ind n ih =>
      subst hn
      rw [deliveries]
      by_cases hspent : r.isSpent = true
      · rw [dif_pos hspent, eq_of_isSpent hspent]
        rfl
      · rw [dif_neg hspent]
        have hless := size_next_lt r (by simpa using hspent)
        have hcases := collect_cases List.not_mem_nil r.buffered r.arrivals
        rw [List.nil_append] at hcases
        rcases hcases with ⟨delivery, r', hnext, hharvest⟩ | ⟨left, hnext, hharvest⟩
        · have hcall : r.next = (delivery, r') := hnext
          rw [hcall] at hless ⊢
          rw [hharvest]
          by_cases hlast : delivery = .endOfInput ∧ r'.isSpent = true
          · rw [if_pos hlast, hlast.1, eq_of_isSpent hlast.2]
            rfl
          · -- Only the end is not repeated, and it was not the last of what is left.
            have hmore : delivery = .endOfInput → (harvest r'.buffered r'.arrivals).given = [] →
                (harvest r'.buffered r'.arrivals).begun ≠ [] := by
              intro hend hgiven hbegun
              obtain ⟨hbuffered, harrivals⟩ := eq_nil_of_harvest hgiven hbegun
              exact hlast ⟨hend, by simp [isSpent, hbuffered, harrivals]⟩
            rw [if_neg hlast, ih _ hless r' rfl]
            exact (Reading.concluded_append [] delivery _ hmore).symm
        · have hcall : r.next = (atEnd left, ⟨[], []⟩) := hnext
          rw [hcall, hharvest]
          have hnone : (LineReader.mk [] []).deliveries = [.endOfInput] := deliveries_of_end rfl rfl
          by_cases hleft : left = []
          · simp [hleft, atEnd, isSpent, Reading.concluded]
          · simp [hleft, atEnd, hnone, Reading.concluded]

/-! ## Scripts -/

/-- The results of calling a reader until its script of reads is used up. -/
def results (script : List Arrival) : List Delivery :=
  (LineReader.mk [] (Arrival.reads script)).deliveries

theorem results_eq (script : List Arrival) : results script = (harvest [] script).concluded := by
  rw [results, deliveries_eq, harvest_reads]

theorem results_of_recut {script script' : List Arrival}
    (h : Relation.EqvGen Recut script script') : results script = results script' := by
  induction h with
  | rel script script' hcut => rw [results_eq, results_eq, harvest_recut hcut]
  | refl script => rfl
  | symm script script' _ ih => exact ih.symm
  | trans script script' script'' _ _ ih ih' => exact ih.trans ih'

/-- Bytes alone come to their whole lines, and leave what follows the last of them begun. -/
theorem harvest_pieces {pieces : List (List UInt8)} (hpieces : ∀ piece ∈ pieces, piece ≠ []) :
    harvest [] (pieces.map .data) =
      ⟨(lines pieces.flatten).map .text, (cut pieces.flatten).2⟩ := by
  have hdata := harvest_data [] hpieces []
  rwa [List.append_nil, List.nil_append] at hdata

theorem concluded_lines (bytes : List UInt8) :
    Reading.concluded ⟨(lines bytes).map .text, (cut bytes).2⟩ =
      (records bytes).map .text ++ [.endOfInput] := by
  by_cases hbegun : (cut bytes).2 = []
  · simp [Reading.concluded, hbegun, records, lastLine]
  · simp [Reading.concluded, hbegun, records, lastLine]

/-- Bytes and then the end come to the records of the bytes and the end. -/
theorem results_of_pieces {pieces : List (List UInt8)} (hpieces : ∀ piece ∈ pieces, piece ≠ [])
    {ending : List Arrival} (hending : ending = [] ∨ ending = [.data []]) :
    results (pieces.map .data ++ ending) =
      (records pieces.flatten).map .text ++ [.endOfInput] := by
  rcases hending with rfl | rfl
  · rw [List.append_nil, results_eq, harvest_pieces hpieces, concluded_lines]
  · rw [results_eq, harvest_append_end, harvest_pieces hpieces]
    by_cases hbegun : (cut pieces.flatten).2 = []
    · simp [Reading.concluded, hbegun, atEnd, harvest, records, lines, lastLine]
    · simp [Reading.concluded, hbegun, atEnd, harvest, records, lines, lastLine]

theorem results_append_failure (before : List Arrival) (reason : String) (after : List Arrival) :
    results (before ++ .failure reason :: after) =
      (harvest [] before).given ++ .failure reason :: results after := by
  rw [results_eq, results_eq, harvest_append_failure, Reading.concluded_append]
  intro hend
  cases hend

theorem results_append_end (before after : List Arrival)
    (h : (harvest [] before).begun = [] → after ≠ []) :
    results (before ++ .data [] :: after) =
      (harvest [] before).given ++ atEnd (harvest [] before).begun :: results after := by
  rw [results_eq, results_eq, harvest_append_end, Reading.concluded_append]
  intro hend hgiven hbegun
  have hfresh : (harvest [] before).begun = [] := by
    by_contra hline
    simp [atEnd, hline] at hend
  exact h hfresh (eq_nil_of_harvest hgiven hbegun).2

/--
What a reader hands out for a script of reads.  Cutting or joining reads that bring bytes makes no
difference.  Bytes up to the end come to the parts between their line feeds, without the line break
at the end of each, and the end of the input.  A read of no bytes gives the line that is begun as a
record, and a fresh one goes on behind it; where none is begun it reports the end, which is not
reported again if nothing follows.  A read that fails gives one error and loses the line that is
begun; what comes before and behind it is handed out as it would be by itself.  The line that is
begun are the bytes behind the last line feed since the last read that ended or failed, and the
lines before it have been given.
-/
theorem deliveries_of_script :
    (∀ script script', Relation.EqvGen Recut script script' → results script = results script') ∧
      (∀ pieces : List (List UInt8), (∀ piece ∈ pieces, piece ≠ []) →
        ∀ ending, ending = [] ∨ ending = [.data []] →
          results (pieces.map .data ++ ending) =
            (partsAt lineFeed pieces.flatten).map (fun part =>
                .text (String.ofList (Text.Utf8.lossy (part.rdropWhile isBreak)))) ++
              [.endOfInput]) ∧
      (∀ before after, (harvest [] before).begun ≠ [] →
        results (before ++ .data [] :: after) =
          (harvest [] before).given ++ .text (lineText (harvest [] before).begun) ::
            results after) ∧
      (∀ before after, (harvest [] before).begun = [] →
        results (before ++ .data [] :: after) =
          (harvest [] before).given ++ .endOfInput ::
            if after = [] then [] else results after) ∧
      (∀ before reason after,
        results (before ++ .failure reason :: after) =
          (harvest [] before).given ++ .failure reason :: results after) ∧
      ∀ (before : List Arrival) (pieces : List (List UInt8)),
        (∀ stop, before.getLast? = some stop → stop.interrupts = true) →
        (∀ piece ∈ pieces, piece ≠ []) →
        ∀ whole last, pieces.flatten.splitOn lineFeed = whole ++ [last] →
          harvest [] (before ++ pieces.map .data) =
            ⟨(harvest [] before).given ++ whole.map fun line => .text (lineText line), last⟩ := by
  refine ⟨fun script script' => results_of_recut, ?_, ?_, ?_, results_append_failure, ?_⟩
  · intro pieces hpieces ending hending
    have hrecords : (partsAt lineFeed pieces.flatten).map (fun part =>
          .text (String.ofList (Text.Utf8.lossy (part.rdropWhile isBreak)))) =
        (records pieces.flatten).map Delivery.text := by
      rw [records_eq_partsAt, List.map_map]
      rfl
    rw [hrecords]
    exact results_of_pieces hpieces hending
  · intro before after hbegun
    rw [results_append_end before after fun hnone => absurd hnone hbegun]
    simp [atEnd, hbegun]
  · intro before after hbegun
    by_cases hafter : after = []
    · rw [hafter, results_eq, harvest_append_end, hbegun]
      simp [atEnd, Reading.concluded, harvest, lines]
    · rw [results_append_end before after fun _ => hafter, if_neg hafter, hbegun]
      rfl
  · intro before pieces hbefore hpieces whole last hsplit
    rw [harvest_append_script hbefore, harvest_pieces hpieces]
    rw [splitOn_lineFeed] at hsplit
    obtain ⟨hwhole, hlast⟩ := List.append_inj' hsplit rfl
    simp only [List.cons.injEq, and_true] at hlast
    rw [lines, hwhole, hlast, List.map_map]
    rfl

/-- A line that a read of no bytes ends, one that a failing read loses, and one cut in its break. -/
example :
    results [.data [97], .data [], .data [98, 10, 99], .failure "x", .data [100, 13], .data [10]] =
      [.text "a", .text "b", .failure "x", .text "d", .endOfInput] := by
  rw [results_eq]
  decide +kernel

end LineReader
end Framing
end VerifierSession
