import VkSandbox.Machinery.Locking
import VkSandbox.Provider.Requests
import VkSandbox.Properties.Scenario

/-!
# Properties/Progress — the save lock, and that no call is ever stuck

`persist` and `commitClaim` write the state file under `saveMu`.  It is the one thing in the
provider that a goroutine can wait for: `mu` is only ever held across a section, and everything else
is asked of a world that answers, if only with an error.  So what is to be shown is about `saveMu`
alone:

    lockSave ─▸ look ─▸ mkdirAll ─▸ writeFile ─▸ rename ─▸ clearTentative ─▸ unlockSave

* `Runs.save_lock_brief`: between the two its holder performs at most these five nodes, and asks for
  nothing but the file.  A goroutine never waits for `saveMu` while another waits for sandboxd.
* `Runs.never_stuck`: **from every reachable state every call in progress can still return**,
  whatever calls are in progress and whoever holds the lock.
-/

namespace VkSandbox

open Interleave Interleave.Prog

variable {cfg : Config}

/-- What `write` asks for. -/
def Request.WritesFile : Request → Prop
  | .mkdirAll | .writeFile _ | .rename => True
  | _ => False

/-- How `saveMu` is used. -/
def saveRule : LockRule Request where
  take := .lockSave
  give := .unlockSave
  ne := by simp
  inside := Request.WritesFile
  bound := 5

/-- **`saveMu`.** -/
def saveLock (cfg : Config) : Lock (machine cfg) where
  toLockRule := saveRule
  holder := State.saveMu
  taken := by
    intro t r s s' ha
    simp only [machine, apply, saveRule, answer] at ha
    split at ha
    · next hfree => cases ha; exact ⟨hfree, rfl⟩
    · cases ha
  given := by
    intro t r s s' ha
    simp only [machine, apply, saveRule, answer] at ha
    split at ha
    · cases ha; rfl
    · cases ha
  crashed := by
    intro s s' ha
    simp only [machine, apply] at ha
    split at ha
    · cases ha
    · cases ha; rfl
  kept := by
    intro ev s s' ha hno
    obtain ⟨hsame, -⟩ | ⟨u, rfl, -⟩ | ⟨u, rfl, -⟩ | rfl := (effect ha).saveMu
    · exact hsame
    · exact absurd (.inl rfl) hno
    · exact absurd (.inr rfl) hno
    · exact absurd trivial hno

/-! ## Every call pairs the two -/

theorem keeps_write (committing : Option Key) :
    (write cfg committing).Keeps saveRule (fun _ h => ∃ n, h = some (n + 1)) (some 5) := by
  have hask : ∀ {e : Request} {n : ℕ} {α : Type} {g : Reply e → Code α} {Q : α → Option ℕ → Prop},
      e.WritesFile → (∀ r, (g r).Keeps saveRule Q (some n)) →
      (request e >>= g).Keeps saveRule Q (some (n + 1)) := fun {e} {n} _ _ _ he hg =>
    Keeps.ask (h := some n) (fun h => by subst h; exact he) (fun h => by subst h; exact he)
      (fun _ => he) hg
  unfold write
  split
  · exact ⟨4, rfl⟩
  refine Keeps.look (h := some 4) fun m => hask trivial fun r => ?_
  cases r with
  | error err => exact ⟨2, rfl⟩
  | ok u =>
    refine hask trivial fun r => ?_
    cases r with
    | error err => exact ⟨1, rfl⟩
    | ok u =>
      refine hask trivial fun r => ?_
      cases r with
      | error err => exact ⟨0, rfl⟩
      | ok u => exact ⟨0, rfl⟩

/-- `saveMu.Lock()`, then code that holds it. -/
theorem balanced_lockSave {α : Type} {g : Unit → Code α}
    (hg : (g ()).Keeps saveRule (fun _ h => h = none) (some 5)) :
    (request .lockSave >>= g).Balanced saveRule := .inl ⟨rfl, rfl, fun _ => hg⟩

/-- `saveMu.Unlock()`, then code that does without. -/
theorem keeps_unlockSave {α : Type} {g : Unit → Code α} {n : ℕ} (hg : (g ()).Balanced saveRule) :
    (request .unlockSave >>= g).Keeps saveRule (fun _ h => h = none) (some n) :=
  .inr (.inl ⟨rfl, rfl, fun _ => hg⟩)

theorem balanced_persist : (persist cfg).Balanced saveRule := by
  refine balanced_lockSave (Keeps.call (keeps_write none) fun r h hh => ?_)
  obtain ⟨n, rfl⟩ := hh
  exact keeps_unlockSave rfl

theorem balanced_saveState : (saveState cfg).Balanced saveRule := balanced_persist.bind fun _ => rfl

theorem balanced_commitClaim (key : Key) : (commitClaim cfg key).Balanced saveRule := by
  refine balanced_lockSave (Keeps.call (keeps_write (some key)) fun r h hh => ?_)
  obtain ⟨n, rfl⟩ := hh
  cases r with
  | error err => exact keeps_unlockSave rfl
  | ok u => exact Keeps.enter (h := some n) fun m => keeps_unlockSave rfl

/-- Code that writes no file leaves the lock alone. -/
theorem balanced_of_asks {α : Type} {P : Request → Prop} {p : Code α} (hp : p.Asks P)
    (hP : ∀ e, P e → ¬ e.Saves) : p.Balanced saveRule := by
  refine .of_asks hp fun e he => ⟨fun heq => hP e he ?_, fun heq => hP e he ?_⟩
  · subst heq; trivial
  · subst heq; trivial

theorem balanced_verify : (verifyClaimsAgainstNode cfg).Balanced saveRule :=
  balanced_of_asks (asks_verify fun _ h => h) fun _ => Request.Lists.not_saves

theorem balanced_notify (pod : Pod) : (notify pod).Balanced saveRule :=
  balanced_of_asks (P := fun e => e = .notify pod) (asks_notify rfl)
    fun e he => by subst he; exact id

theorem balanced_release {α : Type} {sandbox token : String} {g : Except String Unit → Code α}
    (hg : ∀ r, (g r).Balanced saveRule) : (release sandbox token >>= g).Balanced saveRule := by
  refine Balanced.bind ?_ hg
  refine balanced_of_asks (P := fun e => ¬ e.Saves) ?_ fun e he => he
  exact ⟨id, fun _ => ⟨id, fun _ => trivial⟩⟩

theorem balanced_recordClaim (pod : Pod) (res : ClaimResult) :
    (recordClaim cfg pod res).Balanced saveRule := by
  have hnow : (request .now).Balanced saveRule :=
    balanced_of_asks (P := fun e => e = .now) ⟨rfl, fun _ => trivial⟩
      fun e he => by subst he; exact id
  refine hnow.bind fun now => .enter fun m => (balanced_commitClaim _).bind fun r => ?_
  cases r with
  | error err =>
    refine balanced_release fun r => ?_
    cases r with
    | error err => rfl
    | ok u => exact .enter fun _ => rfl
  | ok u => exact (balanced_notify _).bind fun _ => rfl

theorem balanced_claimFresh (pod : Pod) : (claimFresh cfg pod).Balanced saveRule := by
  unfold claimFresh
  split
  · rfl
  next spec _ =>
  have hclaim : (claim spec).Balanced saveRule :=
    balanced_of_asks (P := fun e => ¬ e.Saves) ⟨id, fun _ => ⟨id, fun _ => trivial⟩⟩ fun e he => he
  refine hclaim.bind fun r => ?_
  cases r with
  | error err => rfl
  | ok res => exact balanced_recordClaim pod res

theorem balanced_createPod (pod : Pod) : (createPod cfg pod).Balanced saveRule := by
  unfold createPod
  dsimp only
  split
  · rfl
  refine .orReturn ?_ fun _ => .orReturn ?_ fun _ => .enter fun m => ?_
  · refine .look fun m => ?_
    split
    · rfl
    refine balanced_verify.bind fun b => ?_
    split <;> rfl
  · refine balanced_of_asks (asks_settleExpired _) fun e he => ?_
    obtain rfl | he := he
    · exact id
    · exact he.not_saves
  · split
    · exact balanced_saveState.bind fun _ => (balanced_notify _).bind fun _ => rfl
    · refine .orReturn ?_ fun _ => balanced_claimFresh pod
      have hasks : (clearStrandedClaim pod.key).Asks ((Op.createPod pod).Requests cfg.platform) :=
        asks_clearStranded _
      exact balanced_of_asks hasks fun e he => he.not_saves

theorem balanced_updatePod (pod : Pod) : (updatePod cfg pod).Balanced saveRule := by
  refine .look fun m => ?_
  split
  · rfl
  refine .enter fun m => ?_
  split
  · exact balanced_createPod pod
  · rfl

theorem balanced_destroyAuthorized (key : Key) (ns : String) (owner : Option OwnerReference) :
    (destroyAuthorized cfg key ns owner).Balanced saveRule :=
  balanced_of_asks (P := fun e => ¬ e.Saves) (asks_destroyAuthorized fun _ _ _ _ => id)
    fun _ he => he

theorem balanced_deletePod (pod : Pod) : (deletePod cfg pod).Balanced saveRule := by
  refine .look fun m => ?_
  split
  · rfl
  refine .look fun m => ?_
  split
  · exact .enter fun _ => rfl
  refine (balanced_destroyAuthorized _ _ _).bind fun v => ?_
  split
  · exact .enter fun _ => balanced_saveState.bind fun _ => rfl
  refine balanced_release fun r => ?_
  cases r with
  | error err => rfl
  | ok u => exact .enter fun _ => balanced_saveState.bind fun _ => rfl

theorem balanced_recheckOwners (now : Time) (base : ℕ) :
    (recheckOwners cfg now base).Balanced saveRule := by
  refine .look fun m => .enter fun _ => ?_
  have horder : (request (.rangeOver m.preserved.keys)).Balanced saveRule :=
    balanced_of_asks (P := fun e => ¬ e.Saves) ⟨id, fun _ => trivial⟩ fun e he => he
  refine horder.bind fun order => ?_
  have hloop : ∀ {α : Type} {p : Code α},
      p.Asks ((Op.recheckOwners now base).Requests cfg.platform) →
      p.Balanced saveRule := fun hp => balanced_of_asks hp fun e he => he.not_saves
  refine (hloop (asks_recheckLoop _ _ _)).bind fun changed => ?_
  refine Balanced.bind (.look fun m => hloop (asks_drainLoop _ _)) fun drained => ?_
  split
  · exact balanced_saveState
  · rfl

theorem balanced_new : (new cfg).Balanced saveRule := by
  have hload : (loadState cfg).Balanced saveRule := by
    refine balanced_of_asks asks_loadState fun e he => ?_
    obtain rfl | rfl := he <;> exact id
  refine hload.orReturn fun _ => ?_
  split
  · refine .enter fun _ => balanced_verify.bind fun _ => balanced_persist.bind fun r => ?_
    cases r <;> rfl
  · refine balanced_persist.bind fun r => ?_
    cases r <;> rfl

/-- **Every call takes the save lock only to give it back.** -/
theorem balanced_code (op : Op) : (code cfg op).Balanced saveRule := by
  have hother : op.saves = false → (code cfg op).Balanced saveRule := fun hop =>
    balanced_of_asks (asks_code op) fun e he => by
      obtain ⟨hs, -⟩ | ⟨-, hl⟩ | ho := he
      · rw [hop] at hs
        cases hs
      · exact hl.not_saves
      · exact ho.not_saves
  cases op with
  | new => exact balanced_new.bind fun _ => rfl
  | createPod pod => exact (balanced_createPod pod).bind fun _ => rfl
  | updatePod pod => exact (balanced_updatePod pod).bind fun _ => rfl
  | deletePod pod => exact (balanced_deletePod pod).bind fun _ => rfl
  | recheckOwners now base => exact (balanced_recheckOwners now base).bind fun _ => rfl
  | _ => exact hother rfl

/-! ## The world answers -/

theorem responsive (cfg : Config) : (saveLock cfg).Responsive where
  read := fun t s => ⟨_, rfl⟩
  locked := fun t a s => ⟨_, rfl⟩
  finished := by
    intro t op r s
    cases t <;> exact ⟨_, rfl⟩
  asked := by
    intro t e s ht hg
    cases e with
    | now => exact ⟨second, s, by simp [machine, apply, answer]⟩
    | rangeOver keys => exact ⟨keys.toList, s, if_pos ⟨keys.nodup_toList, keys.toList_toFinset⟩⟩
    | sendClaim spec | sendRelease id token | sendList | notify pod => exact ⟨(), _, rfl⟩
    | claim spec | release id token | sandboxes | mkdirAll | writeFile st | rename =>
      exact ⟨.error "", _, rfl⟩
    | getOwner key gvr ns name => exact ⟨.failed "", _, rfl⟩
    | readFile => exact ⟨.failed "", _, rfl⟩
    | lockSave => exact (ht rfl).elim
    | unlockSave => exact (hg rfl).elim
  take := fun t s (hfree : s.saveMu = none) =>
    ⟨show Reply .lockSave from (), _, if_pos hfree⟩
  give := fun t s (hmine : s.saveMu = some t) =>
    ⟨show Reply .unlockSave from (), _, if_pos hmine⟩

section Runs

variable {file : File} {tr tr' : List Ev} {t : Tid}
  {x : Interleave.Config State Memory Section Request Reply Tid Op Outcome}

theorem Runs.lock_ordered (h : Runs cfg file tr x) : (saveLock cfg).Ordered x :=
  h.ordered (.idle rfl) balanced_code

/-- **From every reachable state every call in progress can still return.**  A call can move, or it
waits for the save lock and the goroutine that holds it can; and some continuation, in which nobody
starts a call and nothing crashes, ends them all with the lock free. -/
theorem Runs.never_stuck (h : Runs cfg file tr x) :
    (∀ t, x.tasks t ≠ none → (∃ ev x', Step (machine cfg) x ev x' ∧ ev.tid = some t) ∨
      (∃ op k, x.tasks t = some (op, .ask .lockSave k)) ∧
      ∃ u ev x', u ≠ t ∧ x.shared.saveMu = some u ∧ Step (machine cfg) x ev x' ∧ ev.tid = some u) ∧
    ∃ tr' x', Run (machine cfg) x tr' x' ∧ (∀ ev ∈ tr', ev.Continues) ∧ (∀ t, x'.tasks t = none) ∧
      x'.shared.saveMu = none := by
  refine ⟨fun t ht => ?_, Lock.completes (responsive cfg) balanced_code rfl h⟩
  obtain ⟨⟨op, p⟩, hp⟩ := Option.ne_none_iff_exists'.mp ht
  have hord := h.lock_ordered
  by_cases hfree : ∀ k, p = .ask .lockSave k → x.shared.saveMu = none
  · obtain ⟨ev, x', hs, htid, -⟩ := hord.moves (responsive cfg) hp hfree
    exact .inl ⟨ev, x', hs, htid⟩
  -- it waits, so the holder is somebody else, and a holder does not wait
  obtain ⟨k, rfl, hheld⟩ : ∃ k, p = .ask .lockSave k ∧ x.shared.saveMu ≠ none := by
    simpa using hfree
  obtain ⟨u, hu⟩ := Option.ne_none_iff_exists'.mp hheld
  obtain ⟨op', p', hp'⟩ := hord.held hu
  obtain ⟨ev, x', hs, htid, -⟩ := hord.moves (responsive cfg) hp' fun k hk => by
    subst hk
    exact absurd hp' (hord.not_waiting hu)
  refine .inr ⟨⟨op, k, hp⟩, u, ev, x', ?_, hu, hs, htid⟩
  rintro rfl
  exact hord.not_waiting hu hp

/-- One queue is writing the file and another is about to: both can return. -/
theorem never_stuck_two_creates : ∃ tr x, Runs fullConfig .absent tr x ∧
    x.shared.saveMu = some (.lifecycle "ns/p") ∧
      (x.shared.ledger.calls (.lifecycle "ns/q")).isSome ∧
    ∃ tr' x', Run (machine fullConfig) x tr' x' ∧ (∀ ev ∈ tr', ev.Continues) ∧
      (∀ t, x'.tasks t = none) ∧ x'.shared.saveMu = none := by
  obtain ⟨tr, x, hrun, hheld, hcall⟩ := exists_run fullConfig .absent
    (call .boot .new 10 {} ++
      call (.lifecycle "ns/p") (.createPod (samplePod "p" "u1" [])) 11
        { claimed := .ok (sampleResult "s1") } ++
      call (.lifecycle "ns/q") (.createPod (samplePod "q" "u2" [])) 8
        { claimed := .ok (sampleResult "s2") })
    (fun _ s => s.saveMu = some (.lifecycle "ns/p") ∧
      (s.ledger.calls (.lifecycle "ns/q")).isSome = true)
    (by decide +kernel)
  exact ⟨tr, x, hrun, hheld, hcall, hrun.never_stuck.2⟩

/-- **Nobody keeps the save lock for long, or while it waits for anything but the disk.** -/
theorem Runs.save_lock_brief (h : Runs cfg file (tr ++ .asked t .lockSave () :: tr') x)
    (hno : .asked t .unlockSave () ∉ tr') (hcrash : .crashed ∉ tr') :
    x.shared.saveMu = some t ∧ (ownEvents t tr').length ≤ 5 ∧
      ∀ e r, .asked t e r ∈ tr' → e.WritesFile := by
  obtain ⟨y, y', hrun, hs, hrun'⟩ := Run.split h
  have hord : (saveLock cfg).Ordered y := Runs.lock_ordered hrun
  exact Lock.held_briefly hrun' (hord.step balanced_code hs) balanced_code
    ((saveLock cfg).taken hs.apply).2 (fun _ => hno) hcrash

/-- The thread that takes (`true`) or gives the save lock. -/
def movesSaveLock : Ev → Option (Tid × Bool)
  | .asked t .lockSave _ => some (t, true)
  | .asked t .unlockSave _ => some (t, false)
  | _ => none

theorem movesSaveLock_eq_take {ev : Ev} {t : Tid} (h : movesSaveLock ev = some (t, true)) :
    ev = .asked t .lockSave () := by
  cases ev with
  | asked u e r =>
    cases e with
    | lockSave => cases h; rfl
    | unlockSave => cases h
    | _ => cases h
  | _ => cases h

/-- A create that has written the temporary file and not renamed it yet. -/
theorem save_lock_brief_create :
    ∃ (tr tr' : List Ev)
      (x : Interleave.Config State Memory Section Request Reply Tid Op Outcome),
    Runs fullConfig .absent (tr ++ .asked (.lifecycle "ns/p") .lockSave () :: tr') x ∧
    tr'.length = 3 ∧ x.shared.saveMu = some (.lifecycle "ns/p") ∧
    (ownEvents (.lifecycle "ns/p") tr').length ≤ 5 ∧
    ∀ e r, .asked (.lifecycle "ns/p") e r ∈ tr' → e.WritesFile := by
  obtain ⟨tr, x, ev, y, tr', x', ev', y', hrun, hs, hrun', -, htake, hlen, hquiet⟩ :=
    exists_steps_between fullConfig .absent
    (call .boot .new 10 {} ++ call (.lifecycle "ns/p") (.createPod (samplePod "p" "u1" [])) 8
      { claimed := .ok (sampleResult "s1") })
    (.move (.lifecycle "ns/p") (World.reply {})) (steps (.lifecycle "ns/p") 3 {})
    (.move (.lifecycle "ns/p") (World.reply {}))
    (fun _ _ ev tr' _ _ => movesSaveLock ev = some (.lifecycle "ns/p", true) ∧ tr'.length = 3 ∧
      tr'.all (fun ev => (movesSaveLock ev).isNone && !isCrash ev) = true)
    (by decide +kernel)
  obtain rfl := movesSaveLock_eq_take htake
  have hall : Runs fullConfig .absent
      (tr ++ .asked (.lifecycle "ns/p") .lockSave () :: tr') x' :=
    Run.append hrun (Run.append (Run.nil.snoc hs) hrun')
  refine ⟨tr, tr', x', hall, hlen, hall.save_lock_brief (fun hmem => ?_) fun hmem => ?_⟩
  · exact absurd (List.all_eq_true.mp hquiet _ hmem) (by simp [movesSaveLock])
  · exact absurd (List.all_eq_true.mp hquiet _ hmem) (by simp [movesSaveLock, isCrash])

end Runs

end VkSandbox
