import VerifierSession.Proofs.Reader
import VerifierSession.Proofs.Schedule

/-!
# Where a stream is cut

A verifier writes its records in pieces, which may end anywhere: in a record, in a character, before
a line feed.  Only the bytes matter, whether a reader goes on between two pieces or not.

* `Pipe.step_write`: what is written to a pipe does not keep its reader from what it would do;
* `Pipe.ReadsOut`: all of a pipe is read that can be, which has one outcome;
* `Workbench.Stretch`: the process started last writes pieces, while its reader goes on;
* `Workbench.Stretch.readsOut`: in the end, that is as if all bytes had been written first.
-/

namespace VerifierSession

/-! ## Pipes -/

/-- A record can be taken off a pipe whatever is written behind it. -/
theorem Outlet.next_records_append {unread rest : List UInt8} {pending : Option ProcessOutput}
    (h : records.next unread false = some (pending, rest)) (bytes : List UInt8) :
    records.next (unread ++ bytes) false = some (pending, rest ++ bytes) := by
  by_cases hmem : Framing.lineFeed ∈ unread
  · obtain ⟨before, behind, rfl, hbefore⟩ := List.eq_append_cons_of_mem hmem
    rw [next_lineFeed hbefore] at h
    cases h
    rw [List.append_assoc, List.cons_append, next_lineFeed hbefore]
  · rw [next_of_not_mem hmem] at h
    cases h

namespace Pipe

variable {p q q' : Pipe} {runs : Bool} {outs outs' : List ProcessOutput}

theorem write_of_not_accepts (h : p.accepts runs = false) (bytes : List UInt8) :
    p.write runs bytes = p := by
  simp [write, h]

theorem write_of_accepts (h : p.accepts runs = true) (bytes : List UInt8) :
    p.write runs bytes = { p with unread := p.unread ++ bytes } := by
  simp [write, h]

theorem write_nil (p : Pipe) (runs : Bool) : p.write runs [] = p := by
  simp [write]

theorem write_append (p : Pipe) (runs : Bool) (as bs : List UInt8) :
    p.write runs (as ++ bs) = (p.write runs as).write runs bs := by
  cases h : p.accepts runs with
  | false => rw [write_of_not_accepts h, write_of_not_accepts h, write_of_not_accepts h]
  | true =>
      have hstill : ({ p with unread := p.unread ++ as } : Pipe).accepts runs = true := h
      rw [write_of_accepts h, write_of_accepts h, write_of_accepts hstill, List.append_assoc]

/-- A reader takes a record off a pipe that somebody can write to, if it holds none yet. -/
theorem read_of_next (hopen : p.accepts runs = true) (hempty : p.pending = none)
    {pending : Option ProcessOutput} {rest : List UInt8}
    (hnext : Outlet.records.next p.unread false = some (pending, rest)) :
    p.isDue .records runs .read = true ∧
      p.read .records runs = { p with pending, unread := rest } := by
  obtain ⟨hopen, hwriter⟩ := accepts_iff.1 hopen
  simp [isDue, read, hopen, hempty, hwriter, hnext]

/-- What a reader does comes to the same before something is written and after it. -/
theorem step_write {s : Step} (hdue : p.isDue .records runs s = true) (bytes : List UInt8) :
    (p.write runs bytes).isDue .records runs s = true ∧
      (p.write runs bytes).step .records runs s =
        ((p.step .records runs s).1.write runs bytes, (p.step .records runs s).2) := by
  cases haccepts : p.accepts runs with
  | false =>
      -- Nothing gets into the pipe, neither before nor after.
      have hstill : (p.step .records runs s).1.accepts runs = false := by
        cases s with
        | read =>
            simp only [step, read]
            split
            · exact haccepts
            · split
              · exact haccepts
              · split
                · exact haccepts
                · rfl
        | send => exact haccepts
        | _ => cases hdue
      rw [write_of_not_accepts haccepts, write_of_not_accepts hstill]
      exact ⟨hdue, rfl⟩
  | true =>
      rw [write_of_accepts haccepts]
      cases s with
      | read =>
          obtain ⟨hempty, hnext⟩ :
              p.pending = none ∧ (Outlet.records.next p.unread false).isSome = true := by
            obtain ⟨hopen, hwriter⟩ := accepts_iff.1 haccepts
            simpa [isDue, hopen, hwriter] using hdue
          obtain ⟨⟨pending, rest⟩, hnext⟩ := Option.isSome_iff_exists.1 hnext
          obtain ⟨-, hread⟩ := read_of_next haccepts hempty hnext
          obtain ⟨hdue', hread'⟩ := read_of_next (p := { p with unread := p.unread ++ bytes })
            haccepts hempty (Outlet.next_records_append hnext bytes)
          have haccepts' : ({ p with pending, unread := rest } : Pipe).accepts runs = true :=
            haccepts
          refine ⟨hdue', ?_⟩
          simp only [step, hread, hread', write_of_accepts haccepts']
      | send =>
          have haccepts' : ({ p with pending := none } : Pipe).accepts runs = true := haccepts
          refine ⟨hdue, ?_⟩
          simp only [step, write_of_accepts haccepts']
      | _ => cases hdue

/-- All that can be read of a pipe is read and handed in, without more being written. -/
inductive ReadsOut (runs : Bool) : Pipe → List ProcessOutput → Pipe → Prop where
  | done {p : Pipe} : p.isDue .records runs .read = false → p.isDue .records runs .send = false →
      ReadsOut runs p [] p
  | step {p q : Pipe} {s : Step} {outs : List ProcessOutput} : s = .read ∨ s = .send →
      p.isDue .records runs s = true → ReadsOut runs (p.step .records runs s).1 outs q →
      ReadsOut runs p ((p.step .records runs s).2 ++ outs) q

theorem isDue_send_of_read (h : p.isDue .records runs .read = true) :
    p.isDue .records runs .send = false := by
  simp only [isDue, Bool.and_eq_true, Option.isNone_iff_eq_none] at h ⊢
  rw [h.1.2]
  rfl

theorem eq_of_isDue {s s' : Step} (hs : s = .read ∨ s = .send) (hs' : s' = .read ∨ s' = .send)
    (h : p.isDue .records runs s = true) (h' : p.isDue .records runs s' = true) : s = s' := by
  rcases hs with rfl | rfl
  · rcases hs' with rfl | rfl
    · rfl
    · rw [isDue_send_of_read h] at h'
      cases h'
  · rcases hs' with rfl | rfl
    · rw [isDue_send_of_read h'] at h
      cases h
    · rfl

/-- There is only one way to read all that can be read. -/
theorem ReadsOut.unique (h : ReadsOut runs p outs q) (h' : ReadsOut runs p outs' q') :
    outs = outs' ∧ q = q' := by
  have hnot : ∀ {p : Pipe} {s : Step}, s = .read ∨ s = .send → p.isDue .records runs s = true →
      p.isDue .records runs .read = false → p.isDue .records runs .send = false → False := by
    rintro p s (rfl | rfl) hdue hread hsend
    · rw [hread] at hdue
      cases hdue
    · rw [hsend] at hdue
      cases hdue
  -- Reading and handing in are never due at once, so each step is the only one.
  induction h generalizing outs' with
  | done hread hsend =>
      cases h' with
      | done => exact ⟨rfl, rfl⟩
      | step hs hdue => exact (hnot hs hdue hread hsend).elim
  | step hs hdue _ ih =>
      cases h' with
      | done hread hsend => exact (hnot hs hdue hread hsend).elim
      | step hs' hdue' hlater =>
          cases eq_of_isDue hs hs' hdue hdue'
          obtain ⟨rfl, rfl⟩ := ih hlater
          exact ⟨rfl, rfl⟩

end Pipe

namespace Child

/-- A process after it wrote records, if it is of that session. -/
def writeIf (c : Child) (session : Option Nat) (bytes : List UInt8) : Child :=
  if session = some c.session then c.withPipe .records (c.records.write c.isRunning bytes) else c

@[simp] theorem writeIf_session (c : Child) (session : Option Nat) (bytes : List UInt8) :
    (c.writeIf session bytes).session = c.session := by
  unfold writeIf
  split
  · exact c.withPipe_session .records _
  · rfl

theorem writeIf_nil (c : Child) (session : Option Nat) : c.writeIf session [] = c := by
  unfold writeIf
  split
  · rw [Pipe.write_nil]
    exact c.withPipe_pipe .records
  · rfl

theorem writeIf_append (c : Child) (session : Option Nat) (as bs : List UInt8) :
    c.writeIf session (as ++ bs) = (c.writeIf session as).writeIf session bs := by
  by_cases h : session = some c.session
  · simp only [writeIf, withPipe_session, if_pos h, Pipe.write_append, withPipe_isRunning]
    rfl
  · simp only [writeIf, if_neg h]

end Child

/-! ## Benches -/

/-- The piece that is written in a happening, if one is. -/
def Happening.piece? : Happening → Option (List UInt8)
  | .action (.write piece) => some piece
  | _ => none

/--
Whether a happening belongs to a stretch of writing: the process started last writes, whose session
that is, its reader of records goes on, or events are taken.
-/
def Happening.isStretch (session : Nat) : Happening → Bool
  | .action (.write _) | .action (.poll _) | .action .drain | .action .complete => true
  | .deed n (.on .records .read) | .deed n (.on .records .send) => n == session
  | _ => false

namespace Workbench

/-- The calls of a run, and the bench that it leaves. -/
def outcome (w : Workbench) (hs : List Happening) : List HostCall × Workbench :=
  (w.calls hs, w.after hs)

theorem outcome_append (w : Workbench) (hs hs' : List Happening) :
    w.outcome (hs ++ hs') =
      ((w.outcome hs).1 ++ ((w.outcome hs).2.outcome hs').1, ((w.outcome hs).2.outcome hs').2) := by
  simp only [outcome, calls_run, after_run]

/-- Pieces that the process started last writes one after the other. -/
def writes (pieces : List (List UInt8)) : List Happening :=
  pieces.map fun piece => .action (.write piece)

section Stretch

variable {w : Workbench} {c : Child} {others : List Child}

theorem befall_of_last (hw : w.Numbered) (hchildren : w.children = c :: others) {h : Happening}
    (hlaunched : w.launched h = []) (hlast : ∀ n, n ≠ c.session → w.befalling n h = []) :
    (w.befall h).1.children = (c.undergoAll (w.befalling c.session h)).1 :: others ∧
      w.arriving h = (c.undergoAll (w.befalling c.session h)).2 := by
  have hdistinct := hw.distinct
  rw [hchildren, List.map_cons, List.nodup_cons] at hdistinct
  -- No two processes are of the same session, so the others are left alone.
  have hidle : ∀ c' ∈ others, w.befalling c'.session h = [] := by
    intro c' hc'
    exact hlast _ fun heq => hdistinct.1 (heq ▸ List.mem_map_of_mem hc')
  have hsame : others.map (fun c' => (c'.undergoAll (w.befalling c'.session h)).1) = others := by
    refine (List.map_congr_left ?_).trans (List.map_id _)
    intro c' hc'
    rw [hidle c' hc']
    rfl
  have hnone : others.flatMap (fun c' => (c'.undergoAll (w.befalling c'.session h)).2) = [] := by
    refine List.flatMap_eq_nil_iff.2 ?_
    intro c' hc'
    rw [hidle c' hc']
    rfl
  rw [children_befall, hlaunched, List.nil_append, arriving, hchildren, List.map_cons, hsame,
    List.flatMap_cons, hnone, List.append_nil]
  exact ⟨rfl, rfl⟩

/-- What is done to the process in a stretch: something is written, or its reader goes on. -/
theorem befalling_of_isStretch (hchildren : w.children = c :: others) {h : Happening}
    (hh : h.isStretch c.session = true) :
    w.launched h = [] ∧ (∀ n, n ≠ c.session → w.befalling n h = []) ∧
      ((∃ piece, h.piece? = some piece ∧
          w.befalling c.session h = [.on .records (.write piece)]) ∨
        (h.piece? = none ∧ (w.befalling c.session h = [] ∨ ∃ s, (s = .read ∨ s = .send) ∧
          w.befalling c.session h = [.on .records s]))) := by
  have hreads : ∀ s : Pipe.Step, s = .read ∨ s = .send →
      (∀ n, n ≠ c.session → w.befalling n (.deed c.session (.on .records s)) = []) ∧
        (w.befalling c.session (.deed c.session (.on .records s)) = [] ∨
          ∃ s', (s' = .read ∨ s' = .send) ∧
            w.befalling c.session (.deed c.session (.on .records s)) = [.on .records s']) := by
    intro s hs
    simp only [befalling, if_true]
    split
    · exact ⟨fun _ _ => rfl, .inl rfl⟩
    · exact ⟨fun n hn => if_neg hn, .inr ⟨s, hs, rfl⟩⟩
  cases h with
  | action a =>
      cases a with
      | write piece =>
          refine ⟨rfl, ?_, .inl ⟨piece, rfl, ?_⟩⟩
          · intro n hn
            simp [befalling, affected, hchildren, hn]
          · simp [befalling, affected, hchildren]
      | poll budget => exact ⟨rfl, fun _ _ => rfl, .inr ⟨rfl, .inl rfl⟩⟩
      | drain => exact ⟨rfl, fun _ _ => rfl, .inr ⟨rfl, .inl rfl⟩⟩
      | complete => exact ⟨rfl, fun _ _ => rfl, .inr ⟨rfl, .inl rfl⟩⟩
      | _ => cases hh
  | deed n d =>
      cases d with
      | on o s =>
          cases o with
          | complaints => cases hh
          | records =>
              cases s with
              | read =>
                  obtain rfl : n = c.session := by simpa [Happening.isStretch] using hh
                  obtain ⟨hothers, hread⟩ := hreads .read (.inl rfl)
                  exact ⟨rfl, hothers, .inr ⟨rfl, hread⟩⟩
              | send =>
                  obtain rfl : n = c.session := by simpa [Happening.isStretch] using hh
                  obtain ⟨hothers, hsend⟩ := hreads .send (.inr rfl)
                  exact ⟨rfl, hothers, .inr ⟨rfl, hsend⟩⟩
              | _ => cases hh
      | finish termination => cases hh
      | tell => cases hh

/--
In a stretch of writing, what the reader does is what it would do if all had been written first.  In
the end, all that can be read was read and handed in, unless the reader has still to go on.
-/
theorem readsOut_of_isStretch {hs : List Happening} (hw : w.Numbered)
    (hchildren : w.children = c :: others) (hall : ∀ h ∈ hs, h.isStretch c.session = true) :
    ∃ q outs, (w.after hs).children = c.withPipe .records q :: others ∧
      w.arrivals hs = outs.map c.event ∧
      (q.isDue .records c.isRunning .read = false → q.isDue .records c.isRunning .send = false →
        Pipe.ReadsOut c.isRunning
          (c.records.write c.isRunning (hs.filterMap Happening.piece?).flatten) outs q) := by
  induction hs generalizing w c with
  | nil =>
      refine ⟨c.records, [], hchildren.trans ?_, rfl, ?_⟩
      · rw [show c.withPipe .records c.records = c from c.withPipe_pipe .records]
      · intro hread hsend
        rw [List.filterMap_nil, List.flatten_nil, Pipe.write_nil]
        exact .done hread hsend
  | cons h hs ih =>
      obtain ⟨hlaunched, hothers, hcases⟩ :=
        befalling_of_isStretch hchildren (hall h List.mem_cons_self)
      obtain ⟨hafter, harriving⟩ := befall_of_last hw hchildren hlaunched hothers
      -- Whatever the happening makes of the pipe, the rest goes on with that.
      have hrest : ∀ (p : Pipe) (outs : List ProcessOutput),
          (c.undergoAll (w.befalling c.session h)) = (c.withPipe .records p, outs.map c.event) →
          ∃ q outs', (w.after (h :: hs)).children = c.withPipe .records q :: others ∧
            w.arrivals (h :: hs) = (outs ++ outs').map c.event ∧
            (q.isDue .records c.isRunning .read = false →
              q.isDue .records c.isRunning .send = false →
              Pipe.ReadsOut c.isRunning
                (p.write c.isRunning (hs.filterMap Happening.piece?).flatten) outs' q) := by
        intro p outs hundergone
        rw [hundergone] at hafter harriving
        obtain ⟨q, outs', hchildren', harrivals, hreads⟩ := ih (hw.befall h) hafter
          fun h' hh' => by simpa using hall h' (List.mem_cons_of_mem _ hh')
        refine ⟨q, outs', hchildren', ?_, hreads⟩
        rw [arrivals, harriving, harrivals, List.map_append]
        rfl
      rcases hcases with ⟨piece, hpiece, hdeeds⟩ | ⟨hpiece, hnone | ⟨s, hs', hdeeds⟩⟩
      · obtain ⟨q, outs, hchildren', harrivals, hreads⟩ :=
          hrest (c.records.write c.isRunning piece) [] (by rw [hdeeds]; rfl)
        refine ⟨q, outs, hchildren', harrivals, ?_⟩
        intro hread hsend
        rw [List.filterMap_cons_some hpiece, List.flatten_cons, Pipe.write_append]
        exact hreads hread hsend
      · obtain ⟨q, outs, hchildren', harrivals, hreads⟩ := hrest c.records [] (by rw [hnone]; rfl)
        rw [List.filterMap_cons_none hpiece]
        exact ⟨q, outs, hchildren', harrivals, hreads⟩
      · obtain ⟨q, outs, hchildren', harrivals, hreads⟩ :=
          hrest (c.records.step .records c.isRunning s).1 (c.records.step .records c.isRunning s).2
            (by rw [hdeeds]; simp [Child.undergoAll, Child.undergo, Child.pipe])
        refine ⟨q, _, hchildren', harrivals, ?_⟩
        intro hread hsend
        rw [List.filterMap_cons_none hpiece]
        cases hdue : c.records.isDue .records c.isRunning s with
        | false =>
            rw [Pipe.step_of_not_isDue hs' hdue] at hreads ⊢
            exact hreads hread hsend
        | true =>
            -- What the reader does now, it would do once everything is written.
            obtain ⟨hdue', hstep⟩ :=
              Pipe.step_write hdue (hs.filterMap Happening.piece?).flatten
            have hlater := hreads hread hsend
            have hleft := congrArg Prod.fst hstep
            have hsent := congrArg Prod.snd hstep
            dsimp only at hleft hsent
            rw [← hleft] at hlater
            rw [← hsent]
            exact .step hs' hdue' hlater

end Stretch

/--
A stretch in which the process started last writes pieces.  Its reader of records goes on in between
whenever it can, and events are taken at any time; in the end all was read that can be.
-/
structure Stretch (w : Workbench) (c : Child) (pieces : List (List UInt8)) (hs : List Happening) :
    Prop where
  last : w.children.head? = some c
  belongs : ∀ h ∈ hs, h.isStretch c.session = true
  written : hs.filterMap Happening.piece? = pieces
  readOut : ∀ c' ∈ (w.after hs).children.head?,
    c'.isDue (.on .records .read) = false ∧ c'.isDue (.on .records .send) = false

section SameBytes

variable {w : Workbench} {c : Child} {pieces pieces' : List (List UInt8)}
  {hs hs' : List Happening}

/-- A stretch leaves the process, and brings the events, that its bytes make for. -/
theorem Stretch.readsOut (hw : w.Numbered) (h : w.Stretch c pieces hs) :
    ∃ q outs, (w.after hs).children = c.withPipe .records q :: w.children.tail ∧
      w.arrivals hs = outs.map c.event ∧
      Pipe.ReadsOut c.isRunning (c.records.write c.isRunning pieces.flatten) outs q := by
  obtain ⟨others, hchildren⟩ := List.head?_eq_some_iff.1 h.last
  rw [hchildren, List.tail_cons]
  obtain ⟨q, outs, hafter, harrivals, hreads⟩ := readsOut_of_isStretch hw hchildren h.belongs
  obtain ⟨hread, hsend⟩ := h.readOut (c.withPipe .records q) (by rw [hafter]; rfl)
  rw [h.written] at hreads
  refine ⟨q, outs, hafter, harrivals, hreads ?_ ?_⟩
  · simpa [Child.isDue] using hread
  · simpa [Child.isDue] using hsend

theorem onlyTakes_of_isStretch {n : Nat} {h : Happening} (hh : h.isStretch n = true) :
    h.onlyTakes = true := by
  cases h with
  | deed n d => rfl
  | action a => cases a <;> first | rfl | cases hh

theorem fixed_of_isStretch {n : Nat} {h : Happening} (hh : h.isStretch n = true) :
    (w.befall h).1.setup = w.setup ∧ (w.befall h).1.directory = w.directory := by
  cases h with
  | deed m d =>
      simp only [befall, deed_eq, and_self]
  | action a =>
      cases a with
      | write piece =>
          simp only [befall, act, touch_eq, and_self]
      | poll budget => exact ⟨rfl, rfl⟩
      | drain => exact ⟨rfl, rfl⟩
      | complete => exact ⟨rfl, rfl⟩
      | _ => cases hh

theorem fixed_after_of_isStretch {n : Nat} (hall : ∀ h ∈ hs, h.isStretch n = true) :
    (w.after hs).setup = w.setup ∧ (w.after hs).directory = w.directory := by
  induction hs generalizing w with
  | nil => exact ⟨rfl, rfl⟩
  | cons h hs ih =>
      obtain ⟨hsetup, hdirectory⟩ := fixed_of_isStretch (w := w) (hall h List.mem_cons_self)
      obtain ⟨hsetup', hdirectory'⟩ :=
        ih (w := (w.befall h).1) fun h' hh' => hall h' (List.mem_cons_of_mem _ hh')
      exact ⟨hsetup'.trans hsetup, hdirectory'.trans hdirectory⟩

theorem eq_of_parts {w w' : Workbench} (hsetup : w.setup = w'.setup)
    (hdirectory : w.directory = w'.directory) (hcontroller : w.controller = w'.controller)
    (hchildren : w.children = w'.children) (hevents : w.queue.events = w'.queue.events) :
    w = w' := by
  obtain ⟨setup, directory, controller, children, events, bounded⟩ := w
  obtain ⟨setup', directory', controller', children', events', bounded'⟩ := w'
  cases hsetup
  cases hdirectory
  cases hcontroller
  cases hchildren
  cases hevents
  rfl

variable (hsame : pieces.flatten = pieces'.flatten)
include hsame

/-- Stretches in which the same bytes are written bring the same events and leave the same. -/
theorem Stretch.arrivals_eq (hw : w.Numbered) (h : w.Stretch c pieces hs)
    (h' : w.Stretch c pieces' hs') :
    w.arrivals hs = w.arrivals hs' ∧ (w.after hs).children = (w.after hs').children := by
  obtain ⟨q, outs, hchildren, harrivals, hreads⟩ := h.readsOut hw
  obtain ⟨q', outs', hchildren', harrivals', hreads'⟩ := h'.readsOut hw
  rw [← hsame] at hreads'
  obtain ⟨rfl, rfl⟩ := hreads.unique hreads'
  exact ⟨harrivals.trans harrivals'.symm, hchildren.trans hchildren'.symm⟩

/-- If the same events still wait after them, they come to the same calls and the same bench. -/
theorem Stretch.outcome_eq (hw : w.Numbered) (h : w.Stretch c pieces hs)
    (h' : w.Stretch c pieces' hs')
    (hqueue : (w.after hs).queue.events = (w.after hs').queue.events) :
    w.outcome hs = w.outcome hs' := by
  obtain ⟨harrivals, hchildren⟩ := h.arrivals_eq hsame hw h'
  -- What was taken is what arrived, except for what still waits.
  have htaken : Exchange.taken (w.history hs) = Exchange.taken (w.history hs') := by
    have hfifo := taken_append_queue hw hs
    rw [harrivals, ← taken_append_queue hw hs', hqueue] at hfifo
    exact List.append_cancel_right hfifo
  have hboth : ((w.after hs).controller, w.calls hs) = ((w.after hs').controller, w.calls hs') := by
    rw [takeList_taken fun e he => onlyTakes_of_isStretch (h.belongs e he), htaken,
      takeList_taken fun e he => onlyTakes_of_isStretch (h'.belongs e he)]
  obtain ⟨hsetup, hdirectory⟩ := fixed_after_of_isStretch (w := w) h.belongs
  obtain ⟨hsetup', hdirectory'⟩ := fixed_after_of_isStretch (w := w) h'.belongs
  have hbench : w.after hs = w.after hs' :=
    eq_of_parts (hsetup.trans hsetup'.symm) (hdirectory.trans hdirectory'.symm)
      (congrArg Prod.fst hboth) hchildren hqueue
  exact Prod.ext (congrArg Prod.snd hboth) hbench

/-- Once all events were taken, they come to the same if the same events arrive later. -/
theorem Stretch.served (hw : w.Numbered) (h : w.Stretch c pieces hs)
    (h' : w.Stretch c pieces' hs') {later later' : List Happening} (hs₁ : w.Serves (hs ++ later))
    (hs₂ : w.Serves (hs' ++ later'))
    (hlater : (w.after hs).arrivals later = (w.after hs').arrivals later') :
    w.calls (hs ++ later) = w.calls (hs' ++ later') ∧
      (w.after (hs ++ later)).controller = (w.after (hs' ++ later')).controller := by
  have hall : w.arrivals (hs ++ later) = w.arrivals (hs' ++ later') := by
    rw [arrivals_run, arrivals_run, (h.arrivals_eq hsame hw h').1, hlater]
  have hboth := (hs₁.outcome_eq hw).trans (hall ▸ (hs₂.outcome_eq hw).symm)
  exact ⟨congrArg Prod.snd hboth, congrArg Prod.fst hboth⟩

end SameBytes

/-! ## Pieces in a row -/

theorem befall_write (w : Workbench) (bytes : List UInt8) :
    (w.befall (.action (.write bytes))).1 = { w with
      children := w.children.map fun c =>
        c.writeIf (w.children.head?.map Child.session) bytes } := by
  simp only [befall, act, touch_eq]
  congr 1
  refine List.map_congr_left ?_
  intro c _
  cases hlast : w.children.head?.map Child.session with
  | none => simp [befalling, affected, hlast, Child.undergoAll, Child.writeIf]
  | some n =>
      by_cases hn : c.session = n
      · simp [befalling, affected, hlast, hn, Child.undergoAll, Child.undergo, Child.writeIf,
          Child.pipe, Pipe.step]
      · have hother : n ≠ c.session := fun heq => hn heq.symm
        simp [befalling, affected, hlast, hn, hother, Child.undergoAll, Child.writeIf]

theorem after_writes (w : Workbench) (pieces : List (List UInt8)) :
    w.after (writes pieces) = (w.befall (.action (.write pieces.flatten))).1 := by
  induction pieces generalizing w with
  | nil =>
      have hsame : ∀ session, w.children.map (fun c => c.writeIf session []) = w.children := by
        intro session
        simp only [Child.writeIf_nil, List.map_id']
      rw [List.flatten_nil, befall_write, hsame]
      rfl
  | cons piece pieces ih =>
      have hlast : ((w.befall (.action (.write piece))).1.children.head?.map Child.session) =
          w.children.head?.map Child.session := by
        simp [befall_write, Function.comp_def]
      calc
        w.after (writes (piece :: pieces))
            = (w.befall (.action (.write piece))).1.after (writes pieces) := rfl
        _ = ((w.befall (.action (.write piece))).1.befall (.action (.write pieces.flatten))).1 :=
              ih _
        _ = (w.befall (.action (.write (piece :: pieces).flatten))).1 := by
              rw [befall_write, hlast, befall_write, befall_write]
              simp [Child.writeIf_append]

theorem calls_writes (w : Workbench) (pieces : List (List UInt8)) :
    w.calls (writes pieces) = [] := by
  induction pieces generalizing w with
  | nil => rfl
  | cons piece pieces ih => exact ih _

/--
Where a stretch of output is cut into pieces makes no difference.  A run comes to the same calls and
the same bench if the stretch is written in other pieces, whatever comes before and after it.  Nor
does it matter whether the reader goes on in between, or events are taken: the same events arrive,
and so the runs come to the same if the same events wait after the stretch, or once all that arrives
was taken.  And whatever pieces reach the reader, through its buffer, it hands out the records of
all bytes.
-/
theorem cuts_make_no_difference {pieces pieces' : List (List UInt8)}
    (hsame : pieces.flatten = pieces'.flatten) (w : Workbench) (before later : List Happening) :
    w.outcome (before ++ writes pieces ++ later) = w.outcome (before ++ writes pieces' ++ later) ∧
      (∀ setup directory c hs hs',
        let start := opened setup directory
        let writing := start.after before
        writing.Stretch c pieces hs → writing.Stretch c pieces' hs' →
          writing.arrivals hs = writing.arrivals hs' ∧
          ((writing.after hs).queue.events = (writing.after hs').queue.events →
            start.outcome (before ++ hs ++ later) = start.outcome (before ++ hs' ++ later)) ∧
          ∀ rest rest', writing.Serves (hs ++ rest) → writing.Serves (hs' ++ rest') →
            (writing.after hs).arrivals rest = (writing.after hs').arrivals rest' →
            writing.calls (hs ++ rest) = writing.calls (hs' ++ rest') ∧
              (writing.after (hs ++ rest)).controller =
                (writing.after (hs' ++ rest')).controller) ∧
      ((∀ piece ∈ pieces, piece ≠ []) →
        (Framing.LineReader.mk [] (Framing.Arrival.reads (pieces.map .data))).deliveries =
          (Framing.records pieces'.flatten).map .text ++ [.endOfInput]) := by
  refine ⟨?_, ?_, ?_⟩
  · have hwrites : ∀ w' : Workbench, w'.outcome (writes pieces) = w'.outcome (writes pieces') := by
      intro w'
      simp only [outcome, calls_writes, after_writes, hsame]
    simp only [outcome_append, hwrites]
  · intro setup directory c hs hs' start writing h h'
    have hw : writing.Numbered := numbered setup directory before
    refine ⟨(h.arrivals_eq hsame hw h').1, ?_, fun rest rest' => h.served hsame hw h'⟩
    intro hqueue
    have hwriting : (start.outcome before).2.outcome hs = (start.outcome before).2.outcome hs' :=
      h.outcome_eq hsame hw h' hqueue
    simp only [outcome_append, hwriting]
  · intro hsolid
    -- The buffer cuts the pieces once more, but into pieces of the same bytes.
    have hblocks : ∀ block ∈ pieces.flatMap Framing.blocks, block ≠ [] := by
      intro block hblock
      obtain ⟨piece, hpiece, hmem⟩ := List.mem_flatMap.1 hblock
      exact Framing.ne_nil_of_mem_blocks (hsolid piece hpiece) block hmem
    have hall : (pieces.flatMap Framing.blocks).flatten = pieces'.flatten := by
      calc
        (pieces.flatMap Framing.blocks).flatten
            = pieces.flatMap fun piece => (Framing.blocks piece).flatten := by
                rw [List.flatMap_def, List.flatten_flatten, List.map_map, List.flatMap_def]
                rfl
        _ = pieces.flatten := by simp [Framing.flatten_blocks]
        _ = pieces'.flatten := hsame
    rw [Framing.reads_data, Framing.LineReader.deliveries_data [] _ hblocks, List.nil_append, hall]

/-- A record and its line break, cut in a character, before the line feed, and in one piece. -/
def accented : List (List UInt8) × List (List UInt8) :=
  ([[195], [169, 13], [10, 120]], [[195, 169, 13, 10, 120]])

/-- The pieces are written one by one, while the reader goes on and events are taken. -/
def accentedRun : List Happening :=
  [.action (.write [195])] ++ readRecords 1 ++ [.action (.write [169, 13]), .action (.poll 1)] ++
    readRecords 1 ++ [.action (.write [10, 120])] ++ readRecords 2 ++ [.action (.poll 1)]

def accentedRunWhole : List Happening :=
  [.action (.write [195, 169, 13, 10, 120])] ++ readRecords 1 ++ [.action .complete]

theorem outcome_of_accented :
    let w := sample.after [verifySample]
    let rest : List Happening := [.action (.finish (.exited 0))] ++ readOn 1 2 ++ [.action .drain]
    accented.1.flatten = accented.2.flatten ∧
      w.outcome ([] ++ writes accented.1 ++ rest) = w.outcome ([] ++ writes accented.2 ++ rest) ∧
      sample.outcome ([verifySample] ++ accentedRun ++ rest) =
        sample.outcome ([verifySample] ++ accentedRunWhole ++ rest) ∧
      (Framing.LineReader.mk [] (Framing.Arrival.reads (accented.1.map .data))).deliveries =
        [.text "é", .text "x", .endOfInput] := by
  intro w rest
  have hsame : accented.1.flatten = accented.2.flatten := by decide
  have hpieces : w.Stretch { session := 1 } accented.1 accentedRun :=
    ⟨by decide +kernel, by decide, rfl, by decide +kernel⟩
  have hwhole : w.Stretch { session := 1 } accented.2 accentedRunWhole :=
    ⟨by decide +kernel, by decide, rfl, by decide +kernel⟩
  have hrecords : Framing.records accented.2.flatten = ["é", "x"] := by decide +kernel
  obtain ⟨hrow, -, hreader⟩ := cuts_make_no_difference hsame w [] rest
  obtain ⟨-, hstretch, -⟩ := cuts_make_no_difference hsame w [verifySample] rest
  obtain ⟨-, hrun, -⟩ := hstretch sampleSetup sampleDirectory _ _ _ hpieces hwhole
  refine ⟨hsame, hrow, hrun (by decide +kernel), ?_⟩
  rw [hreader (by decide), hrecords]
  rfl

end Workbench
end VerifierSession
