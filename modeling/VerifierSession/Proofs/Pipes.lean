import VerifierSession.Proofs.Lines
import VerifierSession.Supervision.Pipe

/-!
# What readers hand in

What is written to a pipe, and what its reader hands in, fit together after whatever may happen to
the pipe, in any order.

* `Output`: what was written to a pipe, whose reader may have given it up;
* `Outlet.next_records` and `Outlet.next_complaints`: what a reader takes off its pipe;
* `Pipe.Recorded` and `Pipe.Complained`: what was handed in by the reader of a pipe, with what it
  holds and what is unread, is what was written; every step of a pipe keeps that
  (`Pipe.InStep.step`).
-/

namespace VerifierSession

def ProcessOutput.isEnd : ProcessOutput → Bool
  | .ended _ => true
  | _ => false

/-- The pipe by way of which something is heard of; an end is not heard by way of a pipe. -/
def ProcessOutput.outlet? : ProcessOutput → Option Outlet
  | .record _ => some .records
  | .complaint _ => some .complaints
  | .ended _ => none

theorem ProcessOutput.isEnd_of_outlet? {output : ProcessOutput} {o : Outlet}
    (h : output.outlet? = some o) : output.isEnd = false := by
  cases output with
  | ended termination => cases h
  | _ => rfl

/-! ## The output -/

/--
What was written to a pipe: by the process, as long as it ran, and by all who could write.  A pipe
does not tell who wrote, so what others wrote while the process ran counts as its own.  The stages
are what all had written after each write.
-/
structure Output where
  own : List UInt8 := []
  all : List UInt8 := []
  stages : List (List UInt8) := []
  abandoned : Bool := false

namespace Output

/-- The records that are heard of; if the pipe is given up, one without line feed is not. -/
def delivered (o : Output) : List String :=
  if o.abandoned then Framing.lines o.all else Framing.records o.all

/--
The last record of the process itself, if it is not heard of as such: the pipe was given up, or
others went on with the same line.
-/
def lost (o : Output) : List String :=
  match o.all.drop o.own.length with
  | [] => if o.abandoned then Framing.lastLine o.own else []
  | b :: _ => if b = Framing.lineFeed then [] else Framing.lastLine o.own

def extend (out : Output) (p : Pipe) (o : Outlet) (runs : Bool) (s : Pipe.Step) : Output :=
  match s with
  | .write bytes =>
      if p.accepts runs then
        { out with
          own := if runs then out.own ++ bytes else out.own
          all := out.all ++ bytes
          stages := out.stages ++ [out.all ++ bytes] }
      else out
  | .abandon => if p.canAbandon o runs then { out with abandoned := true } else out
  | _ => out

theorem mem_records_of_mem_lost {o : Output} {line : String} (h : line ∈ o.lost) :
    line ∈ Framing.records o.own := by
  have hlast : line ∈ Framing.lastLine o.own := by
    unfold lost at h
    split at h
    · split at h
      · exact h
      · cases h
    · split at h
      · cases h
      · exact h
  exact List.mem_append_right _ hlast

/-- A record of the process itself is heard of, or it is lost. -/
theorem mem_delivered_or_mem_lost {o : Output} (h : o.own <+: o.all) {line : String}
    (hline : line ∈ Framing.records o.own) : line ∈ o.delivered ∨ line ∈ o.lost := by
  rcases List.mem_append.1 hline with hended | hlast
  · left
    have hmem : line ∈ Framing.lines o.all := (Framing.lines_isPrefix h).subset hended
    unfold delivered
    split
    · exact hmem
    · exact List.mem_append_left _ hmem
  · obtain ⟨rest, hrest⟩ := h
    have hdrop : o.all.drop o.own.length = rest := by rw [← hrest, List.drop_left]
    unfold lost delivered
    rw [hdrop]
    cases rest with
    | nil =>
        -- Nobody else wrote: the last record is heard of unless the pipe was given up.
        rw [List.append_nil] at hrest
        by_cases habandoned : o.abandoned = true
        · exact .inr (by simpa [habandoned] using hlast)
        · left
          rw [if_neg habandoned, ← hrest]
          exact hline
    | cons b rest =>
        -- Somebody else wrote: the last record is heard of as such if a line feed came first.
        by_cases hb : b = Framing.lineFeed
        · left
          have hmem : line ∈ Framing.lines o.all := by
            rw [← hrest, hb]
            exact Framing.mem_lines_of_mem_lastLine rest hlast
          split
          · exact hmem
          · exact List.mem_append_left _ hmem
        · exact .inr (by simpa [hb] using hlast)

end Output

/-! ## What a reader takes off its pipe -/

namespace Outlet

theorem next_lineFeed {line : List UInt8} (h : Framing.lineFeed ∉ line) (behind : List UInt8)
    (final : Bool) : records.next (line ++ Framing.lineFeed :: behind) final =
      some (some (.record (Framing.lineText line)), behind) := by
  simp only [next, Framing.dropWhile_lineFeed h, Framing.takeWhile_lineFeed h]

theorem next_of_not_mem {unread : List UInt8} (h : Framing.lineFeed ∉ unread) (final : Bool) :
    records.next unread final =
      if final && !unread.isEmpty then some (some (.record (Framing.lineText unread)), [])
      else none := by
  simp only [next, Framing.dropWhile_of_not_mem h]

/-- A record is taken off up to its line feed, or as the last one when nobody can write. -/
theorem next_records {unread rest : List UInt8} {final : Bool} {pending : Option ProcessOutput}
    (h : records.next unread final = some (pending, rest)) :
    ∃ line, pending = some (.record line) ∧
      Framing.records unread = line :: Framing.records rest ∧
      (final = false → Framing.lines unread = line :: Framing.lines rest ∧
        (Framing.cut unread).2 = (Framing.cut rest).2) := by
  by_cases hmem : Framing.lineFeed ∈ unread
  · obtain ⟨before, behind, rfl, hbefore⟩ := List.eq_append_cons_of_mem hmem
    rw [next_lineFeed hbefore] at h
    cases h
    refine ⟨_, rfl, Framing.records_append_lineFeed hbefore _, fun _ => ?_⟩
    simp only [Framing.lines, Framing.cut_append_lineFeed hbefore, List.map_cons, and_self]
  · rw [next_of_not_mem hmem] at h
    split at h
    · next hlast =>
        cases h
        obtain ⟨rfl, hsome⟩ := Bool.and_eq_true_iff.1 hlast
        refine ⟨_, rfl, ?_, fun hnot => by cases hnot⟩
        rw [Framing.records_of_not_mem hmem, if_neg (by simpa using hsome)]
        rfl
    · cases h

theorem next_records_none {unread : List UInt8} {final : Bool}
    (h : records.next unread final = none) :
    Framing.lines unread = [] ∧ (final = true → unread = []) := by
  have hnone : Framing.lineFeed ∉ unread := by
    intro hmem
    obtain ⟨before, behind, rfl, hbefore⟩ := List.eq_append_cons_of_mem hmem
    rw [next_lineFeed hbefore] at h
    cases h
  refine ⟨by simp [Framing.lines, Framing.cut_of_not_mem hnone], ?_⟩
  rintro rfl
  rw [next_of_not_mem hnone] at h
  simpa using h

/-- A chunk is what one read brings: as much as there is room for, or all that there is. -/
theorem next_complaints {unread rest : List UInt8} {final : Bool} {pending : Option ProcessOutput}
    (h : complaints.next unread final = some (pending, rest)) :
    ∃ chunk, chunk ≠ [] ∧ chunk.length ≤ Framing.bufferSize ∧ pending = complaintOf? chunk ∧
      chunk ++ rest = unread ∧ (chunk.length = Framing.bufferSize ∨ rest = []) := by
  simp only [next] at h
  split at h
  · cases h
  · next hsome =>
      cases h
      refine ⟨unread.take Framing.bufferSize, ?_, List.length_take_le .., rfl,
        List.take_append_drop .., ?_⟩
      · rw [Ne, List.take_eq_nil_iff, not_or]
        exact ⟨by decide, by simpa using hsome⟩
      · rcases Nat.le_total Framing.bufferSize unread.length with hfull | hshort
        · exact .inl (List.length_take_of_le hfull)
        · exact .inr (List.drop_eq_nil_of_le hshort)

theorem next_complaints_none {unread : List UInt8} {final : Bool}
    (h : complaints.next unread final = none) : unread = [] := by
  simp only [next] at h
  split at h
  · next hnone => simpa using hnone
  · cases h

end Outlet

/-! ## One pipe -/

namespace Pipe

/--
The pipe for records: what its reader handed in, holds and has not read yet is what was written.  As
long as somebody can write, only what a line feed ended counts; the rest is still to go on.
-/
structure Recorded (p : Pipe) (runs : Bool) (out : Output) (sent : List ProcessOutput) : Prop where
  own_begins : out.own <+: out.all
  own_eq : runs = true → out.own = out.all
  kept : p.closed = false → out.abandoned = false
  awaits : p.accepts runs = true →
    sent ++ p.pending.toList ++ (Framing.lines p.unread).map .record =
        (Framing.lines out.all).map .record ∧
      (Framing.cut p.unread).2 = (Framing.cut out.all).2
  drains : p.closed = false →
    sent ++ p.pending.toList ++ (Framing.records p.unread).map .record =
      (Framing.records out.all).map .record
  done : p.closed = true → p.pending = none ∧ sent = out.delivered.map .record

/-- Chunks that were read of an output: each of them is full, or all that was there to read. -/
structure Chunked (out : Output) (chunks : List (List UInt8)) : Prop where
  size : ∀ chunk ∈ chunks, chunk ≠ [] ∧ chunk.length ≤ Framing.bufferSize
  whole : ∀ before chunk later, chunks = before ++ chunk :: later →
    chunk.length = Framing.bufferSize ∨ (before ++ [chunk]).flatten ∈ out.stages

/-- The pipe for complaints: what its reader handed in and holds are the chunks that it read. -/
structure Complained (p : Pipe) (out : Output) (sent : List ProcessOutput) : Prop where
  latest : out.all ≠ [] → out.all ∈ out.stages
  chunks : ∃ chunks : List (List UInt8), Chunked out chunks ∧
    chunks.flatten ++ p.unread = out.all ∧
    chunks.filterMap complaintOf? = sent ++ p.pending.toList
  done : p.closed = true → p.pending = none ∧ p.unread = []

theorem recorded_new : ({} : Pipe).Recorded true {} [] where
  own_begins := List.prefix_refl _
  own_eq := fun _ => rfl
  kept := fun _ => rfl
  awaits := fun _ => ⟨rfl, rfl⟩
  drains := fun _ => rfl
  done := by simp

theorem complained_new : ({} : Pipe).Complained {} [] where
  latest := fun hsome => absurd rfl hsome
  chunks := ⟨[], ⟨by simp, by simp⟩, rfl, rfl⟩
  done := by simp

variable {p : Pipe} {runs : Bool} {out : Output} {sent : List ProcessOutput}

theorem accepts_iff : p.accepts runs = true ↔ p.closed = false ∧ p.hasWriter runs = true := by
  simp [accepts]

theorem canAbandon_iff {o : Outlet} :
    p.canAbandon o runs = true ↔
      p.closed = false ∧ p.pending = none ∧ runs = false ∧ p.held = true ∧
        o.next p.unread false = none := by
  simp [canAbandon, and_assoc]

namespace Recorded

theorem weaken (h : p.Recorded runs out sent) (held' runs' : Bool)
    (hruns : runs' = true → runs = true)
    (haccepts : ({ p with held := held' } : Pipe).accepts runs' = true → p.accepts runs = true) :
    ({ p with held := held' } : Pipe).Recorded runs' out sent where
  own_begins := h.own_begins
  own_eq := fun hrun => h.own_eq (hruns hrun)
  kept := h.kept
  awaits := fun hwriter => h.awaits (haccepts hwriter)
  drains := h.drains
  done := h.done

theorem finish (h : p.Recorded true out sent) : p.Recorded false out sent := by
  refine h.weaken p.held false (fun _ => rfl) ?_
  intro hwriter
  simp only [accepts, Bool.and_eq_true] at hwriter ⊢
  exact ⟨hwriter.1, rfl⟩

theorem records_eq {before : List ProcessOutput} {bytes all : List UInt8}
    (hlines : before ++ (Framing.lines bytes).map .record = (Framing.lines all).map .record)
    (htail : (Framing.cut bytes).2 = (Framing.cut all).2) :
    before ++ (Framing.records bytes).map .record = (Framing.records all).map .record := by
  simp only [Framing.records, Framing.lastLine, htail, List.map_append, ← hlines,
    List.append_assoc]

theorem write (h : p.Recorded runs out sent) (bytes : List UInt8) :
    (p.write runs bytes).Recorded runs (out.extend p .records runs (.write bytes)) sent := by
  unfold Pipe.write Output.extend
  split
  · next haccepts =>
      obtain ⟨hlines, htail⟩ := h.awaits haccepts
      have hopen : p.closed = false := (accepts_iff.1 haccepts).1
      -- The new bytes go on with the same tail in what is unread and in all that was written.
      have hlines' : sent ++ p.pending.toList ++ (Framing.lines (p.unread ++ bytes)).map .record =
          (Framing.lines (out.all ++ bytes)).map .record := by
        rw [Framing.lines_append p.unread, Framing.lines_append out.all, htail, List.map_append,
          List.map_append, ← List.append_assoc, hlines]
      have htail' : (Framing.cut (p.unread ++ bytes)).2 = (Framing.cut (out.all ++ bytes)).2 := by
        rw [Framing.cut_append, Framing.cut_append out.all, htail]
      refine ⟨?_, ?_, h.kept, fun _ => ⟨hlines', htail'⟩, fun _ => records_eq hlines' htail', ?_⟩
      · dsimp only
        split
        · next hrun =>
            have hsame : out.own ++ bytes = out.all ++ bytes := by rw [h.own_eq hrun]
            exact hsame ▸ List.prefix_refl _
        · exact h.own_begins.trans (List.prefix_append _ _)
      · intro hrun
        simp only [hrun, if_true, h.own_eq hrun]
      · intro hclosed
        exact absurd hclosed (by simp [hopen])
  · exact h

theorem read (h : p.Recorded runs out sent) : (p.read .records runs).Recorded runs out sent := by
  unfold Pipe.read
  split
  · exact h
  · next hready =>
      obtain ⟨hopen, hempty⟩ : p.closed = false ∧ p.pending = none := by simpa using hready
      have hdrains := h.drains hopen
      rw [hempty, Option.toList_none, List.append_nil] at hdrains
      split
      · next pending unread hnext =>
          obtain ⟨line, rfl, hrecords, hlines⟩ := Outlet.next_records hnext
          refine ⟨h.own_begins, h.own_eq, h.kept, ?_, ?_, ?_⟩
          · intro haccepts
            obtain ⟨hbefore, htail⟩ := h.awaits haccepts
            have hwriter : p.hasWriter runs = true := (accepts_iff.1 haccepts).2
            obtain ⟨hfirst, hrest⟩ := hlines (by simp [hwriter])
            rw [hempty, hfirst] at hbefore
            refine ⟨?_, hrest ▸ htail⟩
            simpa using hbefore
          · intro _
            rw [hrecords] at hdrains
            simpa using hdrains
          · intro hclosed
            exact absurd hclosed (by simp [hopen])
      · next hnext =>
          split
          · exact h
          · next hwriter =>
              -- Nobody can write and nothing is unread: everything was handed in.
              have hnone := (Outlet.next_records_none hnext).2 (by simpa using hwriter)
              rw [hnone] at hdrains
              refine ⟨h.own_begins, h.own_eq, by simp, by simp [accepts], by simp, ?_⟩
              intro _
              refine ⟨hempty, ?_⟩
              simpa [Output.delivered, h.kept hopen, Framing.records, Framing.lines,
                Framing.lastLine] using hdrains

theorem abandon (h : p.Recorded runs out sent) :
    (p.abandon .records runs).Recorded runs (out.extend p .records runs .abandon) sent := by
  unfold Pipe.abandon Output.extend
  split
  · next hgives =>
      obtain ⟨hopen, hempty, -, hheld, hnone⟩ := canAbandon_iff.1 hgives
      have hlines := (h.awaits (by simp [accepts, hasWriter, hopen, hheld])).1
      rw [hempty, (Outlet.next_records_none hnone).1] at hlines
      refine ⟨h.own_begins, h.own_eq, by simp, by simp [accepts], by simp, ?_⟩
      intro _
      refine ⟨hempty, ?_⟩
      -- What a line feed ended was handed in, and the rest is lost.
      simpa [Output.delivered] using hlines
  · exact h

/-- Whatever happens to the pipe for records, it stays in step with what was written. -/
theorem step (h : p.Recorded runs out sent) (s : Step) :
    (p.step .records runs s).1.Recorded runs (out.extend p .records runs s)
      (sent ++ (p.step .records runs s).2) := by
  cases s with
  | write bytes => simpa [Pipe.step] using h.write bytes
  | hold =>
      simp only [Pipe.step, List.append_nil]
      refine h.weaken _ runs id ?_
      simp [accepts, hasWriter]
  | release =>
      simp only [Pipe.step, List.append_nil]
      refine h.weaken _ runs id ?_
      simp +contextual [accepts, hasWriter]
  | read => simpa [Pipe.step, Output.extend] using h.read
  | send =>
      simp only [Pipe.step, Output.extend]
      refine ⟨h.own_begins, h.own_eq, h.kept, ?_, ?_, ?_⟩
      · simpa [accepts, hasWriter] using h.awaits
      · simpa using h.drains
      · intro hclosed
        simpa [(h.done hclosed).1] using (h.done hclosed).2
  | abandon => simpa [Pipe.step] using h.abandon

theorem outlet?_pending (h : p.Recorded runs out sent) {output : ProcessOutput}
    (hpending : p.pending = some output) : output.outlet? = some .records := by
  have hopen : p.closed = false := by
    cases hclosed : p.closed with
    | false => rfl
    | true =>
        have hnone := (h.done hclosed).1
        rw [hpending] at hnone
        cases hnone
  have hmem : output ∈ (Framing.records out.all).map ProcessOutput.record := by
    rw [← h.drains hopen, hpending]
    simp
  obtain ⟨line, -, rfl⟩ := List.mem_map.1 hmem
  rfl

end Recorded

namespace Chunked

variable {chunks : List (List UInt8)}

/-- The next chunk is full, or all that was written is read with it. -/
theorem snoc (h : Chunked out chunks) {chunk : List UInt8} (hsome : chunk ≠ [])
    (hlength : chunk.length ≤ Framing.bufferSize)
    (hwhole : chunk.length = Framing.bufferSize ∨ (chunks ++ [chunk]).flatten ∈ out.stages) :
    Chunked out (chunks ++ [chunk]) where
  size := by
    intro chunk' hmem
    rcases List.mem_append.1 hmem with hold | hnew
    · exact h.size chunk' hold
    · rw [List.mem_singleton.1 hnew]
      exact ⟨hsome, hlength⟩
  whole := by
    intro before chunk' later hsplit
    rcases List.eq_nil_or_concat later with rfl | ⟨later', last, rfl⟩
    · obtain ⟨rfl, hlast⟩ := List.append_inj' hsplit rfl
      cases hlast
      exact hwhole
    · have hinit : chunks = before ++ chunk' :: later' := by
        rw [List.concat_eq_append, ← List.cons_append, ← List.append_assoc] at hsplit
        exact (List.append_inj' hsplit rfl).1
      exact h.whole before chunk' later' hinit

/-- More stages make no difference to the chunks that were read. -/
theorem mono {out' : Output} (h : Chunked out chunks) (hstages : out.stages ⊆ out'.stages) :
    Chunked out' chunks where
  size := h.size
  whole := by
    intro before chunk later hsplit
    exact (h.whole before chunk later hsplit).imp id fun hmem => hstages hmem

end Chunked

namespace Complained

theorem read (h : p.Complained out sent) : (p.read .complaints runs).Complained out sent := by
  unfold Pipe.read
  split
  · exact h
  · next hready =>
      obtain ⟨hopen, hempty⟩ : p.closed = false ∧ p.pending = none := by simpa using hready
      obtain ⟨chunks, hchunks, hall, hsent⟩ := h.chunks
      split
      · next pending unread hnext =>
          obtain ⟨chunk, hsome, hlength, rfl, hsplit, hfull⟩ := Outlet.next_complaints hnext
          have hflat : (chunks ++ [chunk]).flatten ++ unread = out.all := by
            rw [List.flatten_append, List.flatten_singleton, List.append_assoc, hsplit, hall]
          have hwhole : chunk.length = Framing.bufferSize ∨
              (chunks ++ [chunk]).flatten ∈ out.stages := by
            rcases hfull with hfull | rfl
            · exact .inl hfull
            · rw [List.append_nil] at hflat
              rw [hflat]
              refine .inr (h.latest ?_)
              rw [← hflat]
              simp [hsome]
          refine ⟨h.latest, ⟨chunks ++ [chunk], hchunks.snoc hsome hlength hwhole, hflat, ?_⟩,
            fun hclosed => absurd hclosed (by simp [hopen])⟩
          rw [hempty, Option.toList_none, List.append_nil] at hsent
          rw [List.filterMap_append, hsent]
          cases hchunk : complaintOf? chunk <;> simp [hchunk]
      · next hnext =>
          split
          · exact h
          · exact ⟨h.latest, ⟨chunks, hchunks, hall, hsent⟩,
              fun _ => ⟨hempty, Outlet.next_complaints_none hnext⟩⟩

theorem write (h : p.Complained out sent) (bytes : List UInt8) :
    (p.write runs bytes).Complained (out.extend p .complaints runs (.write bytes)) sent := by
  unfold Pipe.write Output.extend
  split
  · next haccepts =>
      obtain ⟨chunks, hchunks, hall, hsent⟩ := h.chunks
      have hopen : p.closed = false := (accepts_iff.1 haccepts).1
      refine ⟨?_, ⟨chunks, hchunks.mono ?_, ?_, hsent⟩, ?_⟩
      · intro _
        exact List.mem_append_right _ (List.mem_singleton_self _)
      · exact List.subset_append_left _ _
      · rw [← List.append_assoc, hall]
      · intro hclosed
        exact absurd hclosed (by simp [hopen])
  · exact h

/-- Whatever happens to the pipe for complaints, it stays in step with what was written. -/
theorem step (h : p.Complained out sent) (s : Step) :
    (p.step .complaints runs s).1.Complained (out.extend p .complaints runs s)
      (sent ++ (p.step .complaints runs s).2) := by
  obtain ⟨chunks, hchunks, hall, hsent⟩ := h.chunks
  cases s with
  | write bytes => simpa [Pipe.step] using h.write bytes
  | hold => exact ⟨h.latest, ⟨chunks, hchunks, hall, by simpa [Pipe.step] using hsent⟩, h.done⟩
  | release => exact ⟨h.latest, ⟨chunks, hchunks, hall, by simpa [Pipe.step] using hsent⟩, h.done⟩
  | read => simpa [Pipe.step, Output.extend] using h.read
  | send =>
      refine ⟨h.latest, ⟨chunks, hchunks, hall, by simpa [Pipe.step] using hsent⟩, ?_⟩
      intro hclosed
      exact ⟨rfl, (h.done hclosed).2⟩
  | abandon =>
      simp only [Pipe.step, Pipe.abandon, Output.extend, List.append_nil]
      split
      · next hgives =>
          obtain ⟨-, hempty, -, -, hnone⟩ := canAbandon_iff.1 hgives
          -- The reader waits, so it has read all that was written.
          rw [Outlet.next_complaints_none hnone] at hall
          exact ⟨h.latest, ⟨chunks, hchunks.mono fun _ hmem => hmem, hall, hsent⟩,
            fun _ => ⟨hempty, rfl⟩⟩
      · exact h

theorem outlet?_pending (h : p.Complained out sent) {output : ProcessOutput}
    (hpending : p.pending = some output) : output.outlet? = some .complaints := by
  obtain ⟨chunks, -, -, hsent⟩ := h.chunks
  have hmem : output ∈ chunks.filterMap complaintOf? := by
    rw [hsent, hpending]
    simp
  obtain ⟨chunk, -, hchunk⟩ := List.mem_filterMap.1 hmem
  unfold complaintOf? at hchunk
  split at hchunk
  · cases hchunk
  · cases hchunk
    rfl

end Complained

/-- A pipe is in step with what was written to it, as its kind demands. -/
def InStep (p : Pipe) (o : Outlet) (runs : Bool) (out : Output) (sent : List ProcessOutput) :
    Prop :=
  match o with
  | .records => p.Recorded runs out sent
  | .complaints => p.Complained out sent

namespace InStep

variable {o : Outlet}

theorem step (h : p.InStep o runs out sent) (s : Step) :
    (p.step o runs s).1.InStep o runs (out.extend p o runs s) (sent ++ (p.step o runs s).2) := by
  cases o with
  | records => exact Recorded.step h s
  | complaints => exact Complained.step h s

theorem finish (h : p.InStep o true out sent) : p.InStep o false out sent := by
  cases o with
  | records => exact Recorded.finish h
  | complaints => exact h

theorem pending_of_closed (h : p.InStep o runs out sent) (hclosed : p.closed = true) :
    p.pending = none := by
  cases o with
  | records => exact (Recorded.done h hclosed).1
  | complaints => exact (Complained.done h hclosed).1

theorem outlet?_step (h : p.InStep o runs out sent) (s : Step) :
    ∀ output ∈ (p.step o runs s).2, output.outlet? = some o := by
  intro output hmem
  cases s with
  | send =>
      rw [Pipe.step, Option.mem_toList] at hmem
      cases o with
      | records => exact Recorded.outlet?_pending h hmem
      | complaints => exact Complained.outlet?_pending h hmem
  | _ => cases hmem

/-- A reader that is done hands nothing in, and it stays done. -/
theorem step_of_closed (h : p.InStep o runs out sent) (hclosed : p.closed = true) (s : Step) :
    (p.step o runs s).2 = [] ∧ (p.step o runs s).1.closed = true := by
  have hempty := h.pending_of_closed hclosed
  cases s <;> simp [Pipe.step, Pipe.write, Pipe.read, Pipe.abandon, Pipe.accepts, Pipe.canAbandon,
    hclosed, hempty]

end InStep
end Pipe

end VerifierSession
