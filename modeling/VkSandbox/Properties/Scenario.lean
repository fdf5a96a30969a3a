import VkSandbox.Machinery.Performs
import VkSandbox.Provider.Journals

/-!
# Properties/Scenario — concrete schedules

A scenario is a list of calls, each with how many of its steps are taken and what the world outside
answers meanwhile.  `exists_run` turns a scenario that evaluates to what one wants into a run.
-/

namespace VkSandbox

open Interleave

/-! ## A platform -/

/-- A group and a version, split at the only slash. -/
def splitGroupVersion (cs : List Char) : Option (String × String) :=
  match cs.count '/' with
  | 0 => some ("", String.ofList cs)
  | 1 => some (String.ofList (cs.takeWhile (· ≠ '/')),
      String.ofList ((cs.dropWhile (· ≠ '/')).drop 1))
  | _ => none

theorem splitGroupVersion_of_notMem {v : List Char} (h : '/' ∉ v) :
    splitGroupVersion v = some ("", String.ofList v) := by
  simp [splitGroupVersion, List.count_eq_zero.mpr h]

theorem splitGroupVersion_append {g v : List Char} (hg : '/' ∉ g) (hv : '/' ∉ v) :
    splitGroupVersion (g ++ '/' :: v) = some (String.ofList g, String.ofList v) := by
  have hne : ∀ c ∈ g, decide (c ≠ '/') = true := by
    intro c hc
    exact decide_eq_true fun he => hg (he ▸ hc)
  have hcount : (g ++ '/' :: v).count '/' = 1 := by
    simp [List.count_eq_zero.mpr hg, List.count_eq_zero.mpr hv]
  rw [splitGroupVersion, hcount]
  simp only [List.takeWhile_append_of_pos hne, List.dropWhile_append_of_pos hne]
  simp

/-- Go on ASCII texts, in UTC. -/
def asciiPlatform : Platform where
  toLower s := String.ofList (s.toList.map Char.toLower)
  parseGroupVersion s := splitGroupVersion s.toList
  isPrint c := 32 ≤ c.toNat ∧ c.toNat ≠ 127
  offset _ _ := 0
  toLower_ascii := fun _ _ => rfl
  parse_empty := by decide
  parse_version := fun v h => by rw [splitGroupVersion_of_notMem h, String.ofList_toList]
  parse_group := fun g v hg hv => by
    simpa [String.ofList_toList] using splitGroupVersion_append hg hv
  parse_error := fun s h => by
    obtain ⟨n, hn⟩ := Nat.exists_eq_add_of_le' h
    simp [splitGroupVersion, hn]
  isPrint_ascii := fun c _ => by simp

/-- A provider with all its parts. -/
def fullConfig : Config := ⟨true, true, "claims.json", asciiPlatform⟩

/-- A provider without a lister. -/
def unlistedConfig : Config := ⟨false, true, "claims.json", asciiPlatform⟩

/-- A provider with a state file only. -/
def bareConfig : Config := ⟨false, false, "claims.json", asciiPlatform⟩

/-- A provider without a state file. -/
def statelessConfig : Config := ⟨true, true, "", asciiPlatform⟩

/-! ## Worlds and schedules -/

/-- What sandboxd, the API server, the disk and the clock answer for a while. -/
structure World where
  now : Time := 5 * second
  order : List Key := []
  claimed : Except String ClaimResult := .error "no capacity"
  released : Except String Unit := .ok ()
  listed : Except String (List SandboxSummary) := .ok []
  owner : OwnerRead := .failed "timeout"
  written : Except String Unit := .ok ()
  file : FileRead := .absent

/-- The reply of the world to a request. -/
def World.reply (w : World) : (e : Request) → Reply e
  | .now => w.now
  | .rangeOver _ => w.order
  | .claim _ => w.claimed
  | .release _ _ => w.released
  | .sandboxes => w.listed
  | .getOwner _ _ _ _ => w.owner
  | .mkdirAll | .writeFile _ => .ok ()
  | .rename => w.written
  | .readFile => w.file
  | .sendClaim _ | .sendRelease _ _ | .sendList | .notify _ | .lockSave | .unlockSave => ()

/-- A schedule of this machine. -/
abbrev Schedule := List (Choice Request Reply Tid Op)

/-- The next `n` steps of thread `t`, in world `w`. -/
def steps (t : Tid) (n : ℕ) (w : World) : Schedule := List.replicate n (.move t w.reply)

/-- A call of `t` and its first `n` steps, in world `w`. -/
def call (t : Tid) (op : Op) (n : ℕ) (w : World) : Schedule := .start t op :: steps t n w

/-- Follow a schedule from a state file. -/
def play (cfg : Config) (file : File) (sched : Schedule) :
    Option (List Ev × Interleave.Config State Memory Section Request Reply Tid Op Outcome) :=
  Config.exec (machine cfg) sched ⟨State.initial file, fun _ => none⟩

/-- **A schedule that plays to an end with `P` is a run with `P`.** -/
theorem exists_run (cfg : Config) (file : File) (sched : Schedule) (P : List Ev → State → Prop)
    [∀ tr s, Decidable (P tr s)]
    (h : (play cfg file sched).any (fun p => decide (P p.1 p.2.shared)) = true) :
    ∃ tr x, Runs cfg file tr x ∧ P tr x.shared := by
  cases hp : play cfg file sched with
  | none => rw [hp] at h; cases h
  | some p =>
    rw [hp] at h
    exact ⟨p.1, p.2, Config.run_of_exec hp, of_decide_eq_true h⟩

/-- A schedule and one more step, at which `P` holds. -/
theorem exists_step (cfg : Config) (file : File) (sched : Schedule)
    (next : Choice Request Reply Tid Op) (P : List Ev → State → Ev → Prop)
    [∀ tr s ev, Decidable (P tr s ev)]
    (h : (play cfg file sched).any (fun p =>
      (p.2.next (machine cfg) next).any fun q => decide (P p.1 p.2.shared q.1)) = true) :
    ∃ tr x ev x', Runs cfg file tr x ∧ Step (machine cfg) x ev x' ∧ P tr x.shared ev := by
  cases hp : play cfg file sched with
  | none => rw [hp] at h; cases h
  | some p =>
    rw [hp, Option.any_some] at h
    cases hq : p.2.next (machine cfg) next with
    | none => rw [hq] at h; cases h
    | some q =>
      rw [hq] at h
      exact ⟨p.1, p.2, q.1, q.2, Config.run_of_exec hp, Config.step_of_next hq, of_decide_eq_true h⟩

/-- Two steps with a schedule between them, at which `P` holds. -/
theorem exists_steps_between (cfg : Config) (file : File) (sched : Schedule)
    (next : Choice Request Reply Tid Op) (sched' : Schedule) (next' : Choice Request Reply Tid Op)
    (P : List Ev → State → Ev → List Ev → State → Ev → Prop)
    [∀ tr s ev tr' s' ev', Decidable (P tr s ev tr' s' ev')]
    (h : (play cfg file sched).any (fun p =>
      (p.2.next (machine cfg) next).any fun q =>
      (Config.exec (machine cfg) sched' q.2).any fun p' =>
      (p'.2.next (machine cfg) next').any fun q' =>
        decide (P p.1 p.2.shared q.1 p'.1 p'.2.shared q'.1)) = true) :
    ∃ tr x ev y tr' x' ev' y', Runs cfg file tr x ∧ Step (machine cfg) x ev y ∧
      Run (machine cfg) y tr' x' ∧ Step (machine cfg) x' ev' y' ∧
      P tr x.shared ev tr' x'.shared ev' := by
  obtain ⟨p, hp, h⟩ := (Option.any_eq_true _ _).mp h
  obtain ⟨q, hq, h⟩ := (Option.any_eq_true _ _).mp h
  obtain ⟨p', hp', h⟩ := (Option.any_eq_true _ _).mp h
  obtain ⟨q', hq', h⟩ := (Option.any_eq_true _ _).mp h
  exact ⟨p.1, p.2, q.1, q.2, p'.1, p'.2, q'.1, q'.2, Config.run_of_exec hp, Config.step_of_next hq,
    Config.run_of_exec hp', Config.step_of_next hq', of_decide_eq_true h⟩

/-- The same, for the trace as a whole. -/
theorem exists_two_steps (cfg : Config) (file : File) (sched : Schedule)
    (next : Choice Request Reply Tid Op) (sched' : Schedule) (next' : Choice Request Reply Tid Op)
    (P : List Ev → State → Ev → List Ev → State → Ev → Prop)
    [∀ tr s ev tr' s' ev', Decidable (P tr s ev tr' s' ev')]
    (h : (play cfg file sched).any (fun p =>
      (p.2.next (machine cfg) next).any fun q =>
      (Config.exec (machine cfg) sched' q.2).any fun p' =>
      (p'.2.next (machine cfg) next').any fun q' =>
        decide (P p.1 p.2.shared q.1 (p.1 ++ q.1 :: p'.1) p'.2.shared q'.1)) = true) :
    ∃ tr₁ x₁ ev tr₂ x ev' x', Runs cfg file tr₁ x₁ ∧ Runs cfg file (tr₁ ++ ev :: tr₂) x ∧
      Step (machine cfg) x ev' x' ∧ P tr₁ x₁.shared ev (tr₁ ++ ev :: tr₂) x.shared ev' := by
  obtain ⟨tr, x, ev, y, tr', x', ev', y', hrun, hs, hrun', hs', hP⟩ := exists_steps_between cfg file
    sched next sched' next' (fun tr s ev tr' s' ev' => P tr s ev (tr ++ ev :: tr') s' ev') h
  exact ⟨tr, x, ev, tr', x', ev', y', hrun, Run.append hrun (Run.append (Run.nil.snoc hs) hrun'),
    hs', hP⟩

/-- A schedule that goes on, with `P` at both ends of what follows. -/
theorem exists_continuation (cfg : Config) (file : File) (sched sched' : Schedule)
    (P : State → State → Prop) [∀ s s', Decidable (P s s')]
    (h : (play cfg file sched).any (fun p =>
      (Config.exec (machine cfg) sched' p.2).any fun q =>
        decide (P p.2.shared q.2.shared)) = true) :
    ∃ tr x tr' y, Runs cfg file tr x ∧ Run (machine cfg) x tr' y ∧ P x.shared y.shared := by
  obtain ⟨p, hp, h⟩ := (Option.any_eq_true _ _).mp h
  obtain ⟨q, hq, h⟩ := (Option.any_eq_true _ _).mp h
  exact ⟨p.1, p.2, q.1, q.2, Config.run_of_exec hp, Config.run_of_exec hq, of_decide_eq_true h⟩

/-- A call in a schedule, with the event that comes after it. -/
theorem exists_call (cfg : Config) (file : File) (sched : Schedule) (t : Tid) (op : Op)
    (sched' : Schedule) (next : Choice Request Reply Tid Op)
    (P : State → List Ev → State → Ev → Prop) [∀ s tr s' ev, Decidable (P s tr s' ev)]
    (h : (play cfg file sched).any (fun p =>
      (p.2.next (machine cfg) (.start t op)).any fun q =>
      (Config.exec (machine cfg) sched' q.2).any fun r =>
      (r.2.next (machine cfg) next).any fun e =>
        decide ((∀ ev ∈ r.1, ¬ ev.Resets t) ∧ P p.2.shared r.1 r.2.shared e.1)) = true) :
    ∃ tr x tr' y ev y', CallFrom cfg file tr x t op tr' y ∧ Step (machine cfg) y ev y' ∧
      P x.shared tr' y.shared ev := by
  obtain ⟨p, hp, h⟩ := (Option.any_eq_true _ _).mp h
  obtain ⟨q, hq, h⟩ := (Option.any_eq_true _ _).mp h
  obtain ⟨r, hr, h⟩ := (Option.any_eq_true _ _).mp h
  obtain ⟨e, he, h⟩ := (Option.any_eq_true _ _).mp h
  obtain ⟨hno, hP⟩ := of_decide_eq_true h
  have hstep := Config.step_of_next hq
  have hstart : q.1 = .started t op := by
    simp only [Config.next] at hq
    split at hq
    · obtain ⟨s, -, hs⟩ := Option.map_eq_some_iff.mp hq
      rw [← hs]
    · cases hq
  rw [hstart] at hstep
  exact ⟨p.1, p.2, r.1, r.2, e.1, e.2,
    ⟨Config.run_of_exec hp, ⟨q.2, hstep, Config.run_of_exec hr⟩, hno⟩,
    Config.step_of_next he, hP⟩

deriving instance DecidableEq for Section, Request

/-- A stretch of a schedule in which `t` performs `p` to its end. -/
theorem exists_executes {α : Type} (cfg : Config) (file : File) (sched : Schedule) (t : Tid)
    (p : Code α) (sched' : Schedule) (P : State → List Ev → α → State → Prop)
    [∀ s tr a s', Decidable (P s tr a s')]
    (h : (play cfg file sched).any (fun q =>
      (Config.exec (machine cfg) sched' q.2).any fun r =>
      ((machine cfg).track t p q.2.shared r.1).any fun p' =>
      p'.result.any fun a =>
        decide ((∀ ev ∈ r.1, ¬ ev.Resets t) ∧ P q.2.shared r.1 a r.2.shared)) = true) :
    ∃ tr x tr' a y, Runs cfg file tr x ∧ Executes (machine cfg) t p x tr' a y ∧
      P x.shared tr' a y.shared := by
  obtain ⟨q, hq, h⟩ := (Option.any_eq_true _ _).mp h
  obtain ⟨r, hr, h⟩ := (Option.any_eq_true _ _).mp h
  obtain ⟨p', hp', h⟩ := (Option.any_eq_true _ _).mp h
  obtain ⟨a, ha, h⟩ := (Option.any_eq_true _ _).mp h
  obtain ⟨hno, hP⟩ := of_decide_eq_true h
  cases p' with
  | ret a' =>
    cases ha
    exact ⟨q.1, q.2, r.1, a, r.2, Config.run_of_exec hq, ⟨Config.run_of_exec hr, hno,
      Machine.performs_of_track hno .nil hp'⟩, hP⟩
  | _ => cases ha

/-- The call an event ends with a nil error. -/
def returnedOk : Ev → Option (Tid × Op)
  | .finished t op .ok => some (t, op)
  | _ => none

instance (ev : Ev) (e : Tid × Op) : Decidable (returnedOk ev = some e) :=
  inferInstanceAs (Decidable ((_ : Option (Tid × Op)) = _))

theorem returnedOk_eq_some {ev : Ev} {t : Tid} {op : Op} (h : returnedOk ev = some (t, op)) :
    ev = .finished t op .ok := by
  cases ev with
  | finished t' op' r =>
    cases r with
    | ok => cases h; rfl
    | _ => cases h
  | _ => cases h

/-- The thread of a read-locked section. -/
def readBy : Ev → Option Tid
  | .read t => some t
  | _ => none

theorem readBy_eq_some {ev : Ev} {t : Tid} (h : readBy ev = some t) : ev = .read t := by
  cases ev with
  | read u => cases h; rfl
  | _ => cases h

/-- A Pod of namespace `ns` that asks for a template, with its controllers. -/
def samplePod (name uid : String) (owners : List OwnerReference) : Pod where
  ns := "ns"
  name := name
  uid := uid
  annotations := (∅ : Table String String).insert annTemplate "base"
  ownerReferences := owners

/-- A controller. -/
def sampleOwner (uid : String) : OwnerReference :=
  ⟨"apps/v1", "ReplicaSet", "rs", uid, some true, some true⟩

/-- A sandbox as `Claim` hands it out. -/
def sampleResult (id : String) : ClaimResult := ⟨id, "token-" ++ id, "10.0.0.5:7777", 0⟩

/-- A sandbox as a listing shows it. -/
def sampleSummary (id : String) : SandboxSummary := ⟨id, 0, "ns/p"⟩

/-- The row of a sandbox claimed for a Pod at the default time. -/
def sampleClaim (id : String) (pod : Pod) : Claim := .ofResult (sampleResult id) pod (5 * second)

/-- A state file with one row. -/
def sampleFile (key : Key) (c : Claim) : StateFile := ⟨(∅ : Table Key Claim).insert key c, []⟩

end VkSandbox
