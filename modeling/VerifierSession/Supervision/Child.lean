import VerifierSession.Supervision.Pipe

/-!
# A verifier process

A process writes to its pipes until it ends.  A process of its own may hold the pipes beyond that,
and write on.

* what was written is heard of when a reader hands it in;
* the end is heard of last, once the process has ended and both readers are done: nobody holds their
  pipes any more, or they gave them up.
-/

namespace VerifierSession

/-- A process, as far as it matters to what is heard of it. -/
structure Child where
  session : Nat
  ending : Option Termination := none
  records : Pipe := {}
  complaints : Pipe := {}
  told : Bool := false
  deriving DecidableEq, Repr

inductive Deed where
  | on (o : Outlet) (s : Pipe.Step)
  | finish (termination : Termination)
  | tell
  deriving DecidableEq, Repr

namespace Deed

/-- Whether something is handed in by a deed; that needs room in the queue. -/
def hands : Deed → Bool
  | .on _ .send => true
  | .tell => true
  | _ => false

/-- What readers do, and who waits for the end, if nobody else does anything. -/
def own : List Deed :=
  [.on .records .read, .on .records .send, .on .complaints .read, .on .complaints .send, .tell]

end Deed

namespace Child

def isRunning (c : Child) : Bool :=
  c.ending.isNone

def pipe (c : Child) : Outlet → Pipe
  | .records => c.records
  | .complaints => c.complaints

def withPipe (c : Child) (o : Outlet) (p : Pipe) : Child :=
  match o with
  | .records => { c with records := p }
  | .complaints => { c with complaints := p }

@[simp] theorem withPipe_pipe (c : Child) (o : Outlet) : c.withPipe o (c.pipe o) = c := by
  cases o <;> rfl

@[simp] theorem pipe_withPipe (c : Child) (o : Outlet) (p : Pipe) :
    (c.withPipe o p).pipe o = p := by
  cases o <;> rfl

@[simp] theorem withPipe_session (c : Child) (o : Outlet) (p : Pipe) :
    (c.withPipe o p).session = c.session := by
  cases o <;> rfl

@[simp] theorem withPipe_ending (c : Child) (o : Outlet) (p : Pipe) :
    (c.withPipe o p).ending = c.ending := by
  cases o <;> rfl

@[simp] theorem withPipe_told (c : Child) (o : Outlet) (p : Pipe) :
    (c.withPipe o p).told = c.told := by
  cases o <;> rfl

def event (c : Child) (output : ProcessOutput) : Event :=
  ⟨c.session, output⟩

/-- The process ends, unless it already has. -/
def finish (c : Child) (termination : Termination) : Child :=
  if c.isRunning then { c with ending := some termination } else c

/-- Whether both readers are done, and the end is not told yet. -/
def canTell (c : Child) : Bool :=
  c.records.closed && c.complaints.closed && !c.told

/-- The end is told once both readers are done. -/
def tell (c : Child) : Child × List Event :=
  match c.ending with
  | some termination =>
      if c.canTell then ({ c with told := true }, [c.event (.ended termination)]) else (c, [])
  | none => (c, [])

/-- What a deed makes of a process, and what is heard of it. -/
def undergo (c : Child) (d : Deed) : Child × List Event :=
  match d with
  | .on o s =>
      let (p, outputs) := (c.pipe o).step o c.isRunning s
      (c.withPipe o p, outputs.map c.event)
  | .finish termination => (c.finish termination, [])
  | .tell => c.tell

/-- What deeds make of a process, and what is heard of it. -/
def undergoAll (c : Child) (ds : List Deed) : Child × List Event :=
  match ds with
  | [] => (c, [])
  | d :: ds =>
      let (c, events) := c.undergo d
      let (c, more) := c.undergoAll ds
      (c, events ++ more)

/-- Whether there is something to do for a reader, or for who waits for the end. -/
def isDue (c : Child) (d : Deed) : Bool :=
  match d with
  | .on o s => (c.pipe o).isDue o c.isRunning s
  | .finish _ => false
  | .tell => c.ending.isSome && c.canTell

/-- Whether nothing more happens to a process of itself. -/
def AtRest (c : Child) : Prop :=
  ∀ d ∈ Deed.own, c.isDue d = false

/-! ### How much is still to do -/

/-- An upper bound of the deeds that are done of themselves. -/
def work (c : Child) : Nat :=
  c.records.work + c.complaints.work + (!c.told).toNat

def workAll : List Child → Nat
  | [] => 0
  | c :: children => c.work + workAll children

theorem workAll_append (cs cs' : List Child) : workAll (cs ++ cs') = workAll cs + workAll cs' := by
  induction cs with
  | nil => simp [workAll]
  | cons c cs ih => simp only [List.cons_append, workAll, ih, Nat.add_assoc]

theorem work_withPipe (c : Child) (o : Outlet) (p : Pipe) :
    (c.withPipe o p).work + (c.pipe o).work = c.work + p.work := by
  cases o <;> simp only [withPipe, pipe, work] <;> omega

/-- Every such deed is less to do, by what is heard at least. -/
theorem work_undergo_lt {c : Child} {d : Deed} (h : c.isDue d = true) :
    (c.undergo d).1.work < c.work ∧ (c.undergo d).1.work + (c.undergo d).2.length ≤ c.work := by
  cases d with
  | on o s =>
      have hwork := c.work_withPipe o ((c.pipe o).step o c.isRunning s).1
      have hless := Pipe.work_step_lt h
      simp only [undergo, List.length_map]
      omega
  | finish termination => cases h
  | tell =>
      simp only [isDue, Bool.and_eq_true] at h
      obtain ⟨hended, hdone⟩ := h
      obtain ⟨termination, hending⟩ := Option.isSome_iff_exists.1 hended
      have htold : c.told = false := by
        simp only [canTell, Bool.and_eq_true, Bool.not_eq_true'] at hdone
        exact hdone.2
      simp [undergo, tell, hending, hdone, work, htold]

theorem undergo_of_not_isDue {c : Child} {d : Deed} (hd : d ∈ Deed.own) (h : c.isDue d = false) :
    c.undergo d = (c, []) := by
  have hon : ∀ o s, s = .read ∨ s = .send → c.isDue (.on o s) = false →
      c.undergo (.on o s) = (c, []) := by
    intro o s hs hdue
    simp only [undergo, Pipe.step_of_not_isDue hs hdue, withPipe_pipe, List.map_nil]
  simp only [Deed.own, List.mem_cons, List.not_mem_nil, or_false] at hd
  rcases hd with rfl | rfl | rfl | rfl | rfl
  · exact hon .records .read (.inl rfl) h
  · exact hon .records .send (.inr rfl) h
  · exact hon .complaints .read (.inl rfl) h
  · exact hon .complaints .send (.inr rfl) h
  · simp only [undergo, tell]
    cases hending : c.ending with
    | none => rfl
    | some termination =>
        have hdone : c.canTell = false := by simpa [isDue, hending] using h
        simp only [hdone, Bool.false_eq_true, if_false]

end Child
end VerifierSession
