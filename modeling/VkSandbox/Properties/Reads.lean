import VkSandbox.Properties.Scenario
import VkSandbox.Provider.Requests

/-!
# Properties/Reads — what is pushed is what is read

virtual-kubelet hears of a Pod in two ways: the provider pushes it when a create succeeds
(`pushRunning`), and it asks (`GetPod`, `GetPodStatus`, `GetPods`).  The push is built from the Pod
and the claim of the call, without the lock; the answers are built from the tables.

`running_push_agrees` says that the two agree at the moment of the push, whatever the other
goroutines have done since the bind: all they can do to the row of a tracked Pod is to move its
deadline or, after a listing that lacks it, to drop it.
-/

namespace VkSandbox

open Interleave Interleave.Prog

variable {α : Type} {cfg : Config} {file : File} {tr : List Ev} {l : List Entry} {t : Tid} {k : Key}
  {pod : Pod} {c : Claim} {ev : Ev} {s s' : State}
  {x x' : Interleave.Config State Memory Section Request Reply Tid Op Outcome}

/-! ## The text of a push -/

/-- The claim an event binds `pod` to. -/
def boundBy (pod : Pod) : Entry → Option Claim
  | (.locked _ (.adoptExistingClaim key p), s) =>
    if key = pod.key ∧ p = pod then s.mem.adopted key p else none
  | (.locked _ (.insertClaim key p c), _) => if key = pod.key ∧ p = pod then some c else none
  | _ => none

/-- An event of a call that leaves its row and its Pod as they are, before the push. -/
def Commits : Ev → Prop
  | .locked _ (.clearTentative _) => True
  | .locked _ _ => False
  | .asked _ (.notify _) _ => False
  | .read _ | .asked _ _ _ => True
  | _ => False

/-- **The call has bound `pod` to `c`**, and has done no more than commit it since. -/
def JustBound (pod : Pod) (l : List Entry) (c : Claim) : Prop :=
  ∃ l₁ e l₂, l = l₁ ++ e :: l₂ ∧ boundBy pod e = some c ∧ ∀ e' ∈ l₂, Commits e'.1

/-- A push is of the Pod and the claim just bound. -/
def PushText (pod : Pod) (l : List Entry) (ev : Ev) (_ : State) : Prop :=
  ∀ t p u, ev = .asked t (.notify p) u → ∃ c, p = runningPod pod c ∧ JustBound pod l c

theorem justBound_snoc {e : Entry} (h : boundBy pod e = some c) : JustBound pod (l ++ [e]) c :=
  ⟨l, e, [], rfl, h, List.forall_mem_nil _⟩

theorem justBound_insert (pod : Pod) (c : Claim) (l : List Entry) :
    JustBound pod (l ++ [(.locked t (.insertClaim pod.key pod c), s)]) c :=
  justBound_snoc (if_pos ⟨rfl, rfl⟩)

theorem justBound_adopt (h : s.mem.adopted pod.key pod = some c) :
    JustBound pod (l ++ [(.locked t (.adoptExistingClaim pod.key pod), s)]) c :=
  justBound_snoc ((if_pos ⟨rfl, rfl⟩).trans h)

theorem JustBound.adds {l' : List Entry} (h : JustBound pod l c) (ha : Adds Commits l l') :
    JustBound pod l' c := by
  obtain ⟨l₁, e, l₂, rfl, he, hl₂⟩ := h
  obtain ⟨added, rfl, hadded⟩ := ha
  exact ⟨l₁, e, l₂ ++ added, by simp, he, List.forall_mem_append.mpr ⟨hl₂, hadded⟩⟩

/-- A claim is just bound by the last event, or was before it. -/
theorem JustBound.last {e : Entry} (h : JustBound pod (l ++ [e]) c) :
    boundBy pod e = some c ∨ JustBound pod l c ∧ Commits e.1 := by
  obtain ⟨l₁, e', l₂, hl, he, hl₂⟩ := h
  obtain rfl | ⟨l₃, last, rfl⟩ := List.eq_nil_or_concat l₂
  · obtain ⟨-, hlast⟩ := List.append_inj' hl rfl
    cases hlast
    exact .inl he
  · rw [List.concat_eq_append] at hl hl₂
    rw [← List.cons_append, ← List.append_assoc] at hl
    obtain ⟨rfl, hlast⟩ := List.append_inj' hl rfl
    cases hlast
    obtain ⟨hl₃, hcommits⟩ := List.forall_mem_append.mp hl₂
    exact .inr ⟨⟨l₁, e', l₃, rfl, he, hl₃⟩, hcommits e (List.mem_singleton_self e)⟩

theorem pushText_of_commits (h : Commits ev) : PushText pod l ev s := by
  rintro t p u rfl
  cases h

theorem pushText_locked {a : Section} : PushText pod l (.locked t a) s := by
  intro t p u he
  cases he

/-- Code without a push. -/
theorem pushing_of_asks {p : Code α} (h : p.Asks fun e => ∀ q, e ≠ .notify q) :
    Text cfg t (PushText pod) (fun _ _ => True) p l := by
  refine Machine.Follows.of_asks h fun l ev s hev t p u he => ?_
  exact absurd rfl (hev t _ u he p)

/-- Code that only commits. -/
theorem pushing_of_commits {p : Code α}
    (h : Text cfg t (fun _ ev _ => Commits ev) (fun _ _ => True) p l) (hb : JustBound pod l c) :
    Text cfg t (PushText pod) (fun l' _ => JustBound pod l' c) p l :=
  (Machine.Follows.plain h fun _ _ _ => pushText_of_commits).mono fun _ _ => hb.adds

theorem commits_of_saves (h : Saves ev) : Commits ev := by
  cases ev with
  | asked t e r =>
    cases e with
    | lockSave | unlockSave | mkdirAll | writeFile st | rename => trivial
    | _ => cases h
  | read t => trivial
  | _ => cases h

theorem commits_saveState : Text cfg t (fun _ ev _ => Commits ev) (fun _ _ => True)
    (saveState cfg) l :=
  (saves_saveState l).imp (fun _ _ _ => commits_of_saves) fun _ _ => id

theorem commits_commitClaim (key : Key) :
    Text cfg t (fun _ ev _ => Commits ev) (fun _ _ => True) (commitClaim cfg key) l := by
  refine Text.request fun _ s _ _ => ⟨trivial, Machine.Follows.call
    ((saves_write (some key) _).imp (fun _ _ _ => commits_of_saves) fun _ _ => id) fun l r _ => ?_⟩
  cases r with
  | error err => exact Text.request fun _ _ _ _ => ⟨trivial, trivial⟩
  | ok u => exact Text.enter fun _ => ⟨trivial, Text.request fun _ _ _ _ => ⟨trivial, trivial⟩⟩

theorem pushing_pushRunning (hb : JustBound pod l c) :
    Text cfg t (PushText pod) (fun _ _ => True) (pushRunning pod c) l := by
  refine Text.look fun s => ⟨pushText_of_commits trivial, ?_⟩
  split
  · refine Text.last_request fun r s' _ _ => ⟨fun t p u he => ?_, trivial⟩
    cases he
    refine ⟨c, rfl, hb.adds ⟨_, rfl, fun e he => ?_⟩⟩
    rw [List.mem_singleton.mp he]
    trivial
  · trivial

theorem pushing_undo (key : Key) (err : ProviderError) :
    Text cfg t (PushText pod) (fun _ _ => True) (undoUnpersistedClaim cfg key c err) l := by
  refine pushing_of_asks (asks_release nofun nofun fun r => ?_)
  cases r with
  | error err => trivial
  | ok u => exact .enter fun _ => trivial

theorem pushing_recordClaim (res : ClaimResult) :
    Text cfg t (PushText pod) (fun _ _ => True) (recordClaim cfg pod res) l := by
  refine Text.request fun now s _ _ => ⟨pushText_of_commits trivial, Text.enter fun s =>
    ⟨pushText_locked, ?_⟩⟩
  refine Machine.Follows.call
    (pushing_of_commits (commits_commitClaim pod.key) (justBound_insert _ _ _))
    fun l r hb => ?_
  cases r with
  | error err => exact pushing_undo _ err
  | ok u => exact Machine.Follows.call (pushing_pushRunning hb) fun _ _ _ => trivial

theorem pushing_claimFresh : Text cfg t (PushText pod) (fun _ _ => True)
    (claimFresh cfg pod) l := by
  unfold claimFresh
  split
  · trivial
  refine Text.request fun _ _ _ _ => ⟨pushText_of_commits trivial,
    Text.request fun r _ _ _ => ⟨pushText_of_commits trivial, ?_⟩⟩
  cases r with
  | error err => trivial
  | ok res => exact pushing_recordClaim res

theorem Request.Lists.ne_notify {e : Request} (h : e.Lists) (p : Pod) : e ≠ .notify p := by
  rintro rfl
  cases h

theorem pushing_createPod : Text cfg t (PushText pod) (fun _ _ => True) (createPod cfg pod) l := by
  have hresolve : (resolveUnverifiedClaim cfg pod.key).Asks fun e => ∀ p, e ≠ .notify p := by
    refine .look fun m => ?_
    split
    · trivial
    refine (asks_verify fun _ => Request.Lists.ne_notify).bind fun b => ?_
    split <;> trivial
  have hsettle : (settleExpiredClaim cfg pod.key).Asks fun e => ∀ p, e ≠ .notify p := by
    refine (asks_settleExpired _).mono fun e he => ?_
    obtain rfl | he := he
    · exact nofun
    · exact he.ne_notify
  have hclear : (clearStrandedClaim pod.key).Asks fun e => ∀ p, e ≠ .notify p := by
    refine .look fun m => ?_
    split
    · trivial
    refine asks_release nofun nofun fun r => ?_
    cases r with
    | error err => trivial
    | ok u => exact .enter fun _ => trivial
  unfold createPod
  dsimp only
  split
  · trivial
  refine Machine.Follows.orReturn (pushing_of_asks hresolve) (fun _ _ _ => trivial) fun l _ _ => ?_
  refine Machine.Follows.orReturn (pushing_of_asks hsettle) (fun _ _ _ => trivial) fun l _ _ => ?_
  refine Text.enter fun s => ⟨pushText_locked, ?_⟩
  cases hc : s.mem.adopted pod.key pod with
  | some c =>
    refine Machine.Follows.call (pushing_of_commits commits_saveState (justBound_adopt hc))
      fun l _ hb => ?_
    exact Machine.Follows.call (pushing_pushRunning hb) fun _ _ _ => trivial
  | none =>
    exact Machine.Follows.orReturn (pushing_of_asks hclear) (fun _ _ _ => trivial) fun _ _ _ =>
      pushing_claimFresh

theorem pushing_updatePod : Text cfg t (PushText pod) (fun _ _ => True) (updatePod cfg pod) l := by
  refine Text.look fun s => ⟨pushText_of_commits trivial, ?_⟩
  split
  · trivial
  refine Text.enter fun s => ⟨pushText_locked, ?_⟩
  split
  · exact pushing_createPod
  · trivial

/-- **Every push of a key's queue** is of the Pod and the claim its call has just bound. -/
theorem follows_push (k : Key) : Follows cfg (.lifecycle k)
    (fun op l ev s => ∃ pod, op.pod = some pod ∧ pod.key = k ∧ PushText pod l ev s)
    fun _ _ _ => True := by
  intro op s s' hop
  obtain ⟨he, -⟩ | hmay := mayCall_of_started hop
  · cases he
  cases op with
  | createPod pod =>
    refine (Machine.Follows.map (pushing_createPod.mono fun _ _ => id)).imp (fun l ev s h => ?_)
      fun _ _ => id
    exact ⟨pod, rfl, of_decide_eq_true hmay, h⟩
  | updatePod pod =>
    refine (Machine.Follows.map (pushing_updatePod.mono fun _ _ => id)).imp (fun l ev s h => ?_)
      fun _ _ => id
    exact ⟨pod, rfl, of_decide_eq_true hmay, h⟩
  | deletePod pod =>
    have hasks : (code cfg (.deletePod pod)).Asks fun e => ∀ p, e ≠ .notify p :=
      (asks_code _).mono fun e he => by
        rintro p rfl
        obtain ⟨-, he⟩ | ⟨-, he⟩ | he := he <;> cases he
    have htext : Text cfg (.lifecycle k) (PushText pod) (fun _ _ => True)
        (code cfg (.deletePod pod)) [] :=
      pushing_of_asks hasks
    exact htext.imp (fun l ev s h => ⟨pod, rfl, of_decide_eq_true hmay, h⟩) fun _ _ => id
  | _ => cases hmay

/-! ## What the tables show -/

/-- **The tables show the bind of `pod` to `c`**: they track it, and its row is `c` up to the
deadline, or has been dropped. -/
structure ShowsBind (k : Key) (pod : Pod) (c : Claim) (m : Memory) : Prop where
  pod : ∃ p, m.pods.lookup k = some p ∧ podWithClaim p c.id = podWithClaim pod c.id
  row : m.claims.lookup k = none ∨ ∃ d, m.claims.lookup k = some { c with deadline := d }

/-- The bind itself. -/
theorem showsBind_of_bound (h : boundBy pod (ev, s) = some c) (ha : apply ev s = some s') :
    ShowsBind pod.key pod c s'.mem ∧ s'.row pod.key ≠ none := by
  cases ev with
  | locked t a =>
    rw [← Option.some.inj ha]
    cases a with
    | adoptExistingClaim key p =>
      simp only [boundBy] at h
      split at h
      · next hp =>
        obtain ⟨rfl, rfl⟩ := hp
        obtain ⟨c₀, -, -, -, hrun, rfl⟩ := Memory.adopted_eq_some h
        change ShowsBind p.key p (c₀.rebind p) (s.mem.adoptExistingClaim p.key p) ∧
          (s.mem.adoptExistingClaim p.key p).claims.lookup p.key ≠ none
        rw [hrun]
        exact ⟨⟨⟨p, Finmap.lookup_insert _, rfl⟩, .inr ⟨_, Finmap.lookup_insert _⟩⟩,
          by simp⟩
      · cases h
    | insertClaim key p c₀ =>
      simp only [boundBy] at h
      split at h
      · next hp =>
        obtain ⟨rfl, rfl⟩ := hp
        cases h
        refine ⟨⟨⟨podWithClaim p c.id, Finmap.lookup_insert _, ?_⟩,
          .inr ⟨_, Finmap.lookup_insert _⟩⟩,
          ?_⟩
        · simp [podWithClaim, Finmap.insert_insert]
        · change ((s.mem.claims.insert p.key c).lookup p.key) ≠ none
          simp
      · cases h
    | _ => cases h
  | _ => cases h

/-- The call's own events up to the push. -/
theorem ShowsBind.commits (h : ShowsBind k pod c s.mem) (hev : Commits ev)
    (ha : apply ev s = some s') :
    ShowsBind k pod c s'.mem := by
  obtain ⟨hmem, -⟩ | ⟨t, a, rfl, hmem, -⟩ | ⟨he, -⟩ := (effect ha).tables
  · rwa [hmem]
  · rw [hmem]
    cases a with
    | clearTentative key => exact ⟨h.pod, h.row⟩
    | _ => cases hev
  · cases ev with
    | crashed | finished t op r => cases hev
    | _ => cases he

/-- The events of the others. -/
theorem ShowsBind.own (h : ShowsBind k pod c s.mem) (ho : Own k s s') :
    ShowsBind k pod c s'.mem where
  pod := by
    rw [ho.pods]
    exact h.pod
  row := by
    obtain hnone | ⟨d, hd⟩ := h.row
    · exact .inl (ho.empty hnone)
    · obtain ⟨d', hd'⟩ | ⟨hnone, -⟩ := ho.kept hd
      · exact .inr ⟨d', hd'⟩
      · exact .inl hnone

/-- **From the bind to the push the tables show it.** -/
theorem Runs.shows_bind (h : Runs cfg file tr x) (hup : x.shared.phase = .up) (hpod : pod.key = k)
    (hb : JustBound pod (journal cfg file (.lifecycle k) tr) c) :
    ShowsBind k pod c x.shared.mem := by
  refine h.induct_journal (t := .lifecycle k) nofun (C := fun _ _ _ => True)
    (fun _ _ _ _ _ _ => trivial)
    (J := fun l s => s.phase = .up → JustBound pod l c → ShowsBind k pod c s.mem) ?_ ?_ ?_ hup hb
  · rintro s - ⟨l₁, e, l₂, hl, -⟩
    simp at hl
  · intro tr x ev x' h hs _ hup _ ih _ hb
    obtain hbound | ⟨hb, hcommits⟩ := hb.last
    · rw [← hpod]
      exact (showsBind_of_bound hbound (Step.apply hs)).1
    · exact (ih hup hb).commits hcommits (Step.apply hs)
  · intro tr x ev x' h hs _ hup hne htid ih hup' hb
    obtain ⟨hg, ha⟩ := h.next hs
    cases hu : ev.tid with
    | none =>
      -- a crash, after which nothing is up
      obtain hsame | ⟨rfl, -⟩ | ⟨op, rfl, -⟩ | ⟨-, hdown⟩ := (effect ha).phase
      · cases ev with
        | crashed => simp [apply, hup] at ha; rw [← ha] at hup'; cases hup'
        | _ => cases hu
      · cases hu
      · cases hu
      · cases hup'.symm.trans hdown
    | some u =>
      have hcalm : Calm (.lifecycle k) x.shared x'.shared :=
        Rely.of_event h.inv hg ha hu (fun he => htid (he ▸ hu)) hup
      exact (ih hup hb).own (hcalm.own k rfl)

/-! ## The push and the reads -/

/-- The running status reads the containers of the Pod, and of the claim all but its deadline. -/
theorem runningPod_status_eq {p : Pod} {d : Time}
    (h : podWithClaim p c.id = podWithClaim pod c.id) :
    runningStatus p { c with deadline := d } = (runningPod pod c).status := by
  have hc : (podWithClaim p c.id).containers = (podWithClaim pod c.id).containers := by rw [h]
  have hc : p.containers = pod.containers := hc
  simp only [runningPod, runningStatus, containerStatuses, podWithClaim, hc]

theorem runningEntry_runningPod (pod : Pod) (c : Claim) :
    runningEntry (runningPod pod c) = some (pod.key, c.id) := by
  simp [runningEntry, runningPod, runningStatus, podWithClaim, Pod.key]

/-- `GetPodStatus` of a Pod with a settled claim. -/
theorem getPodStatus_of_claim {m : Memory} {ns name : String} {p : Pod}
    (hp : m.pods.lookup (podKey ns name) = some p) (hc : m.claimFor (podKey ns name) = some c)
    (now : Time) :
    getPodStatus cfg.platform m now ns name =
      some (if c.expired now then expiredStatus cfg.platform p c else runningStatus p c) := by
  simp only [getPodStatus, hp, hc]

/-- **A push of Running agrees with the reads** made at the same moment: `GetPod` answers the Pod it
is of, and `GetPodStatus` the status it carries as long as the lease lasts.  Only a listing that
lacks a sandbox of the loaded file can take the row away before the push. -/
theorem running_push_agrees (h : Runs cfg file tr x) (hs : Step (machine cfg) x ev x')
    {pushed : Pod} (hn : notifiedRunning ev = some pushed) :
    ∃ p c, getPod x.shared.mem pushed.ns pushed.name = some p ∧ pushed = runningPod p c ∧
      ((∃ d, x.shared.mem.claimFor pushed.key = some { c with deadline := d } ∧
          ∀ now, getPodStatus cfg.platform x.shared.mem now pushed.ns pushed.name = some
            (if ({ c with deadline := d } : Claim).expired now
              then expiredStatus cfg.platform p { c with deadline := d }
              else pushed.status)) ∨
        x.shared.row pushed.key = none ∧ c.id ∈ x.shared.ledger.missed ∧
          c.id ∈ x.shared.ledger.loaded) := by
  obtain ⟨t, rfl, hphase⟩ := notifiedRunning_eq_some hn
  obtain ⟨⟨hup, -, hrunning, -⟩, -⟩ := h.next hs
  obtain ⟨id, hid, rfl, -, hheld, -⟩ := hrunning hphase
  obtain ⟨op, -, pod, -, hkey, htext⟩ := h.asked (follows_push pushed.key) hs
  obtain ⟨c, rfl, hb⟩ := htext _ _ _ rfl
  obtain ⟨⟨p, hp, hclaim⟩, hrow⟩ := h.shows_bind hup hkey hb
  refine ⟨p, c, hp, by simp only [runningPod, hclaim], ?_⟩
  rw [runningEntry_runningPod] at hid
  obtain rfl : c.id = id := congrArg Prod.snd (Option.some.inj hid)
  obtain ⟨c', hc', -⟩ | hgone := hheld
  swap
  · exact .inr hgone
  obtain hnone | ⟨d, hd⟩ := hrow
  · rw [(Memory.claimFor_eq_some.mp hc').2] at hnone
    cases hnone
  obtain rfl : c' = { c with deadline := d } :=
    Option.some.inj ((Memory.claimFor_eq_some.mp hc').2.symm.trans hd)
  refine .inl ⟨d, hc', fun now => ?_⟩
  rw [← runningPod_status_eq hclaim]
  exact getPodStatus_of_claim hp hc' now

/-- A fresh claim, at its push. -/
theorem running_push_agrees_of_fresh_claim : ∃ tr x ev x' pushed,
    Runs fullConfig .absent tr x ∧ Step (machine fullConfig) x ev x' ∧
    notifiedRunning ev = some pushed ∧
    ∃ p c d, getPod x.shared.mem pushed.ns pushed.name = some p ∧ pushed = runningPod p c ∧
      ∀ now, getPodStatus fullConfig.platform x.shared.mem now pushed.ns pushed.name = some
        (if ({ c with deadline := d } : Claim).expired now
          then expiredStatus fullConfig.platform p { c with deadline := d }
          else pushed.status) := by
  obtain ⟨tr, x, ev, x', hrun, hstep, hpush, hloaded⟩ := exists_step fullConfig .absent
    (call .boot .new 10 {} ++ call .controller .notifyPods 2 {} ++
      call (.lifecycle "ns/p") (.createPod (samplePod "p" "u1" [])) 16
      { claimed := .ok (sampleResult "s1") })
    (.move (.lifecycle "ns/p") (World.reply {}))
    (fun _ s ev => (notifiedRunning ev).isSome = true ∧ s.ledger.loaded = ∅)
    (by decide +kernel)
  obtain ⟨pushed, hpushed⟩ := Option.isSome_iff_exists.mp hpush
  obtain ⟨p, c, hp, hc, ⟨d, -, hst⟩ | ⟨-, -, hl⟩⟩ := running_push_agrees hrun hstep hpushed
  · exact ⟨tr, x, ev, x', pushed, hrun, hstep, hpushed, p, c, d, hp, hc, hst⟩
  · rw [hloaded] at hl
    cases hl

/-! ## `GetPods` -/

/-- **`GetPods` lists what `GetPod` answers**: each tracked Pod once and under its own name,
whatever the order of the loop. -/
theorem Runs.getPods_exact (h : Runs cfg file tr x) {order : List Key}
    (ho : Table.Ranges x.shared.mem.pods.keys order) : (getPods x.shared.mem order).Nodup ∧
    ∀ p, p ∈ getPods x.shared.mem order ↔ getPod x.shared.mem p.ns p.name = some p := by
  have hkey : ∀ {k p}, x.shared.mem.pods.lookup k = some p → p.key = k := h.inv.podKey
  refine ⟨ho.1.filterMap fun k k' p hk hk' => (hkey hk).symm.trans (hkey hk'), fun p => ?_⟩
  simp only [getPods, List.mem_filterMap, getPod]
  constructor
  · rintro ⟨k, -, hk⟩
    rwa [← hkey hk] at hk
  · intro hp
    exact ⟨_, ho.mem_iff.mpr (Finmap.mem_keys.mpr (Finmap.mem_of_lookup_eq_some hp)), hp⟩

end VkSandbox
