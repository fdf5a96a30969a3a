import VkSandbox.Provider.Journals

/-!
# Provider/Entries — which call enters which section

    New                    load, quarantineLoadedClaims, settle
    CreatePod              settle, dropClaim, refreshDeadline, adoptExistingClaim, withdrawClaim,
                           insertClaim, clearTentative
    UpdatePod              updatePod, and all of CreatePod's
    DeletePod              forgetPod, preserveClaim, withdrawClaim
    RunClaimVerification   settle
    publishExpiredLeases   refreshDeadline
    recheckOwners          pruneRechecks, withdrawForRelease, setRecheck, dequeue
    OrphanScan             setVerdicts
    NotifyPods             notifyPods

`enters_code` is this table.  `Runs.settle_covers` adds what a `settle` judges by: the unverified
rows its own call has looked at before.
-/

namespace VkSandbox

open Interleave Interleave.Prog

variable {cfg : Config} {P : Section → Prop}

/-- The sections a `CreatePod` may enter. -/
def CreateSection (pod : Pod) : Section → Prop
  | .settle _ _ => True
  | .dropClaim key _ | .refreshDeadline key _ _ | .withdrawClaim key _ | .clearTentative key =>
    key = pod.key
  | .adoptExistingClaim key p | .insertClaim key p _ => key = pod.key ∧ p = pod
  | _ => False

/-- **The sections a call may enter.** -/
def Op.MayEnter : Op → Section → Prop
  | .new, .load _ _ | .new, .quarantineLoadedClaims | .new, .settle _ _ => True
  | .createPod pod, a => CreateSection pod a
  | .updatePod pod, a => a = .updatePod pod.key pod ∨ CreateSection pod a
  | .deletePod pod, .forgetPod key | .deletePod pod, .withdrawClaim key _ => key = pod.key
  | .deletePod pod, .preserveClaim key _ owner => key = pod.key ∧ owner = controllerOf pod
  | .claimVerification, .settle _ _ => True
  | .publishExpiredLeases, .refreshDeadline _ _ _ => True
  | .recheckOwners _ _, .pruneRechecks _ | .recheckOwners _ _, .withdrawForRelease _ _
  | .recheckOwners _ _, .setRecheck _ _ | .recheckOwners _ _, .dequeue _ => True
  | .orphanScan, .setVerdicts _ => True
  | .notifyPods, .notifyPods => True
  | _, _ => False

/-! ## The helpers -/

theorem enters_request {α : Type} {e : Request} {g : Reply e → Code α} (h : ∀ r, (g r).Enters P) :
    (request e >>= g).Enters P := h

theorem enters_sandboxes {α : Type} {g : Except String (List SandboxSummary) → Code α}
    (h : ∀ r, (g r).Enters P) : (sandboxes >>= g).Enters P := fun _ => h

theorem enters_release {α : Type} {id token : String} {g : Except String Unit → Code α}
    (h : ∀ r, (g r).Enters P) : (release id token >>= g).Enters P := fun _ => h

theorem enters_write (committing : Option Key) : (write cfg committing).Enters P := by
  unfold write
  split
  · trivial
  refine .look fun m => enters_request fun r => ?_
  cases r with
  | error err => trivial
  | ok u =>
    refine enters_request fun r => ?_
    cases r with
    | error err => trivial
    | ok u =>
      refine enters_request fun r => ?_
      cases r <;> trivial

theorem enters_persist : (persist cfg).Enters P :=
  enters_request fun _ => (enters_write none).bind fun _ => enters_request fun _ => trivial

theorem enters_saveState : (saveState cfg).Enters P := enters_persist.bind fun _ => trivial

theorem enters_notify (pod : Pod) : (notify pod).Enters P := by
  refine .look fun m => ?_
  split
  · exact fun _ => trivial
  · trivial

theorem enters_commitClaim {key : Key} (h : P (.clearTentative key)) :
    (commitClaim cfg key).Enters P := by
  refine enters_request fun _ => (enters_write (some key)).bind fun r => ?_
  cases r with
  | error err => exact enters_request fun _ => trivial
  | ok u => exact .enter h fun _ => enters_request fun _ => trivial

theorem enters_verify (h : ∀ before live, P (.settle before live)) :
    (verifyClaimsAgainstNode cfg).Enters P := by
  unfold verifyClaimsAgainstNode
  split
  · trivial
  refine .look fun m => ?_
  split
  · trivial
  refine enters_sandboxes fun r => ?_
  cases r with
  | error err => trivial
  | ok listed => exact .enter (h _ _) fun _ => trivial

theorem enters_destroyAuthorized (key : Key) (ns : String) (owner : Option OwnerReference) :
    (destroyAuthorized cfg key ns owner).Enters P := by
  cases owner with
  | none => trivial
  | some ref =>
    simp only [destroyAuthorized]
    split
    · trivial
    split
    · trivial
    · exact enters_request fun _ => trivial

/-! ## `CreatePod` and its callers -/

variable {pod : Pod}

/-- The sections of `CreatePod` once its row is verified. -/
def CreateSectionAfter (pod : Pod) (a : Section) : Prop :=
  CreateSection pod a ∧ ∀ before live, a ≠ .settle before live

theorem enters_settleExpired : (settleExpiredClaim cfg pod.key).Enters
    (CreateSectionAfter pod) := by
  refine .look fun m => ?_
  split
  · trivial
  refine enters_request fun now => ?_
  split
  · trivial
  split
  · exact .enter ⟨rfl, nofun⟩ fun _ => trivial
  refine enters_sandboxes fun r => ?_
  cases r with
  | error err => trivial
  | ok listed =>
    dsimp only
    split
    · exact .enter ⟨rfl, nofun⟩ fun _ => trivial
    · exact .enter ⟨rfl, nofun⟩ fun _ => trivial

theorem enters_clearStranded : (clearStrandedClaim pod.key).Enters (CreateSectionAfter pod) := by
  refine .look fun m => ?_
  split
  · trivial
  refine enters_release fun r => ?_
  cases r with
  | error err => trivial
  | ok u => exact .enter ⟨rfl, nofun⟩ fun _ => trivial

theorem enters_recordClaim (res : ClaimResult) :
    (recordClaim cfg pod res).Enters (CreateSectionAfter pod) := by
  refine enters_request fun now => .enter ⟨⟨rfl, rfl⟩, nofun⟩ fun _ => ?_
  refine (enters_commitClaim ⟨rfl, nofun⟩).bind fun r => ?_
  cases r with
  | error err =>
    refine enters_release fun r => ?_
    cases r with
    | error err => trivial
    | ok u => exact .enter ⟨rfl, nofun⟩ fun _ => trivial
  | ok u => exact (enters_notify _).bind fun _ => trivial

theorem enters_claimFresh : (claimFresh cfg pod).Enters (CreateSectionAfter pod) := by
  unfold claimFresh
  split
  · trivial
  refine enters_request fun _ => enters_request fun r => ?_
  cases r with
  | error err => trivial
  | ok res => exact enters_recordClaim res

/-- What a `CreatePod` does once its row is verified. -/
def createVerified (cfg : Config) (pod : Pod) : Code (Except ProviderError Unit) :=
  (settleExpiredClaim cfg pod.key).orReturn fun _ => do
    match ← adoptExistingClaim pod.key pod with
    | some c =>
      saveState cfg
      pushRunning pod c
      return .ok ()
    | none => (clearStrandedClaim pod.key).orReturn fun _ => claimFresh cfg pod

theorem enters_createVerified : (createVerified cfg pod).Enters (CreateSectionAfter pod) := by
  refine enters_settleExpired.orReturn fun _ => .enter ⟨⟨rfl, rfl⟩, nofun⟩ fun m => ?_
  split
  · exact enters_saveState.bind fun _ => (enters_notify _).bind fun _ => trivial
  · exact enters_clearStranded.orReturn fun _ => enters_claimFresh

theorem enters_createPod : (createPod cfg pod).Enters (CreateSection pod) := by
  unfold createPod
  dsimp only
  split
  · trivial
  refine .orReturn ?_ fun _ => enters_createVerified.mono fun a ha => ha.1
  refine .look fun m => ?_
  split
  · trivial
  refine (enters_verify fun _ _ => trivial).bind fun b => ?_
  split <;> trivial

theorem enters_updatePod : (updatePod cfg pod).Enters (Op.updatePod pod).MayEnter := by
  refine .look fun m => ?_
  split
  · trivial
  refine .enter (.inl rfl) fun m => ?_
  split
  · exact enters_createPod.mono fun a ha => .inr ha
  · trivial

theorem enters_deletePod : (deletePod cfg pod).Enters (Op.deletePod pod).MayEnter := by
  refine .look fun m => ?_
  split
  · trivial
  refine .look fun m => ?_
  split
  · exact .enter rfl fun _ => trivial
  refine (enters_destroyAuthorized _ _ _).bind fun v => ?_
  split
  · exact .enter ⟨rfl, rfl⟩ fun _ => enters_saveState.bind fun _ => trivial
  refine enters_release fun r => ?_
  cases r with
  | error err => trivial
  | ok u => exact .enter rfl fun _ => enters_saveState.bind fun _ => trivial

/-! ## The loops -/

variable {now : Time} {base : ℕ}

theorem enters_recheckOwner (key : Key) (c : Claim) :
    (recheckOwner cfg now base key c).Enters (Op.recheckOwners now base).MayEnter := by
  refine .look fun m => ?_
  split
  · trivial
  refine (enters_destroyAuthorized _ _ _).bind fun v => ?_
  split
  · exact .enter trivial fun _ => .enter trivial fun _ => trivial
  · exact .enter trivial fun _ => trivial

theorem enters_recheckLoop (rows : Table Key Claim) (keys : List Key) (changed : Bool) :
    (recheckLoop cfg now base rows keys changed).Enters (Op.recheckOwners now base).MayEnter := by
  induction keys generalizing changed with
  | nil => trivial
  | cons key rest ih =>
    unfold recheckLoop
    split
    · exact ih changed
    · exact (enters_recheckOwner _ _).bind fun moved => ih _

theorem enters_drainLoop (q : List Claim) (released : Bool) :
    (drainLoop q released).Enters (Op.recheckOwners now base).MayEnter := by
  induction q generalizing released with
  | nil => trivial
  | cons c rest ih =>
    refine enters_release fun r => ?_
    cases r with
    | error err => exact ih released
    | ok u => exact .enter trivial fun _ => ih true

theorem enters_drainReleases : drainReleases.Enters (Op.recheckOwners now base).MayEnter :=
  .look fun _ => enters_drainLoop _ _

theorem enters_recheckOwners :
    (recheckOwners cfg now base).Enters (Op.recheckOwners now base).MayEnter := by
  refine .look fun m => .enter trivial fun _ => enters_request fun order => ?_
  refine (enters_recheckLoop _ _ _).bind fun changed => ?_
  refine enters_drainReleases.bind fun drained => ?_
  split
  · exact enters_saveState
  · trivial

theorem enters_publishLoop (rows : Table Key Claim) (live : Table String Time) (keys : List Key) :
    (publishLoop cfg rows live keys).Enters Op.publishExpiredLeases.MayEnter := by
  induction keys with
  | nil => trivial
  | cons key rest ih =>
    unfold publishLoop
    split
    · exact ih
    split
    · exact .enter trivial fun _ => ih
    refine .look fun m => ?_
    split
    · dsimp only
      split
      · exact (enters_notify _).bind fun _ => ih
      · exact ih
    · exact ih

theorem enters_publishExpiredLeases :
    (publishExpiredLeases cfg).Enters Op.publishExpiredLeases.MayEnter := by
  refine enters_request fun now => .look fun m => ?_
  split
  · trivial
  split
  · exact enters_request fun order => enters_publishLoop _ _ _
  refine enters_sandboxes fun r => ?_
  cases r with
  | error err => trivial
  | ok listed => exact enters_request fun order => enters_publishLoop _ _ _

theorem enters_orphanScan : (orphanScan cfg).Enters Op.orphanScan.MayEnter := by
  unfold orphanScan
  split
  · trivial
  refine enters_sandboxes fun r => ?_
  cases r with
  | error err => trivial
  | ok listed =>
    exact .look fun m => enters_request fun _ => enters_request fun _ =>
      .enter trivial fun _ => trivial

/-! ## The table -/

theorem enters_loadState (h : ∀ st now, P (.load st now)) : (loadState cfg).Enters P := by
  unfold loadState
  split
  · trivial
  refine enters_request fun r => ?_
  cases r with
  | decoded st => exact enters_request fun now => .enter (h _ _) fun _ => trivial
  | _ => trivial

/-- The end of `New`: the table is written back. -/
theorem enters_writeBack : (do
    match ← persist cfg with
    | .error err => return .error (.notWritable (err.text cfg.platform))
    | .ok () => return .ok () : Code (Except ProviderError Unit)).Enters P := by
  refine enters_persist.bind fun r => ?_
  cases r <;> trivial

theorem enters_new : (new cfg).Enters Op.new.MayEnter := by
  refine (enters_loadState fun _ _ => trivial).orReturn fun _ => ?_
  split
  · exact .enter trivial fun _ => (enters_verify fun _ _ => trivial).bind fun _ => enters_writeBack
  · exact enters_writeBack

/-- **Which call enters which section.** -/
theorem enters_code (op : Op) : (code cfg op).Enters op.MayEnter := by
  cases op with
  | new => exact enters_new.bind fun _ => trivial
  | createPod pod => exact enters_createPod.bind fun _ => trivial
  | updatePod pod => exact enters_updatePod.bind fun _ => trivial
  | deletePod pod => exact enters_deletePod.bind fun _ => trivial
  | claimVerification =>
    refine Enters.bind ?_ fun _ => trivial
    refine (enters_verify fun _ _ => trivial).bind fun b => ?_
    split
    · trivial
    · exact fun _ => trivial
  | publishExpiredLeases => exact enters_publishExpiredLeases.bind fun _ => trivial
  | recheckOwners now base => exact enters_recheckOwners.bind fun _ => trivial
  | orphanScan => exact enters_orphanScan.bind fun _ => trivial
  | notifyPods => exact .enter trivial fun _ => trivial

section Runs

variable {file : File} {tr : List Ev} {t : Tid}
  {x x' : Interleave.Config State Memory Section Request Reply Tid Op Outcome}

/-- **A thread enters only the sections of its call.** -/
theorem Runs.mayEnter (h : Runs cfg file tr x) {a : Section}
    (hs : Step (machine cfg) x (.locked t a) x') : ∃ op, InCall x t op ∧ op.MayEnter a := by
  have hf : Follows cfg t (fun op _ ev _ => ∀ u a, ev = .locked u a → op.MayEnter a)
      (fun _ _ _ => True) :=
    fun op _ _ _ => Machine.Follows.of_enters (enters_code op) fun _ _ _ h => h
  obtain ⟨op, hop, hmay⟩ := h.locked hf hs
  exact ⟨op, hop, hmay t a rfl⟩

/-! ## What a verification judges by -/

/-- A `settle` judges by the unverified rows the call has looked at last, before it asked the
node. -/
def SettleText (t : Tid) (l : List Entry) (ev : Ev) (_ : State) : Prop :=
  ∀ before live, ev = .locked t (.settle before live) → ∃ l₁ l₂ s,
    l = l₁ ++ (.read t, s) :: l₂ ∧ before = s.mem.unverified ∧ ∀ e ∈ l₂, ∃ q r, e.1 = .asked t q r

theorem settleText_of_ne {l : List Entry} {ev : Ev} {s : State}
    (h : ∀ u a, ev = .locked u a → ∀ before live, a ≠ .settle before live) : SettleText t l ev s :=
  fun before live he => absurd rfl (h _ _ he before live)

theorem settleText_read {l : List Entry} {u : Tid} {s : State} : SettleText t l (.read u) s :=
  fun _ _ he => by cases he

theorem settleText_asked {l : List Entry} {u : Tid} {e : Request} {r : Reply e} {s : State} :
    SettleText t l (.asked u e r) s := fun _ _ he => by cases he

theorem settle_verify (l : List Entry) :
    Text cfg t (SettleText t) (fun _ _ => True) (verifyClaimsAgainstNode cfg) l := by
  unfold verifyClaimsAgainstNode
  split
  · trivial
  refine Text.look fun s₁ => ⟨settleText_read, ?_⟩
  split
  · trivial
  unfold sandboxes
  refine Text.request fun u s₂ _ _ => ⟨settleText_asked, ?_⟩
  refine Text.request fun r s₃ _ _ => ⟨settleText_asked, ?_⟩
  cases r with
  | error err => trivial
  | ok listed =>
    refine Text.enter fun s₄ => ⟨?_, trivial⟩
    intro before live he
    cases he
    refine ⟨l, [(.asked t .sendList u, s₂), (.asked t .sandboxes (.ok listed), s₃)], s₁, by simp,
      rfl, ?_⟩
    simp

theorem settle_createPod (l : List Entry) :
    Text cfg t (SettleText t) (fun _ _ => True) (createPod cfg pod) l := by
  unfold createPod
  dsimp only
  split
  · trivial
  refine Machine.Follows.orReturn (P := fun _ _ => True) ?_ (fun _ _ _ => trivial) fun l _ _ => ?_
  · refine Text.look fun s => ⟨settleText_read, ?_⟩
    split
    · trivial
    refine Machine.Follows.call (settle_verify _) fun l b _ => ?_
    split <;> trivial
  · exact Machine.Follows.of_enters enters_createVerified fun l ev s hev =>
      settleText_of_ne fun u a he => (hev u a he).2

theorem follows_settle (cfg : Config) (t : Tid) :
    Follows cfg t (fun _ => SettleText t) (fun _ _ _ => True) := by
  intro op s s' _
  have hother : (∀ a, op.MayEnter a → ∀ before live, a ≠ .settle before live) →
      Text cfg t (SettleText t) (fun _ _ => True) (code cfg op) [] := fun hop =>
    Machine.Follows.of_enters (enters_code op) fun l ev s hev =>
      settleText_of_ne fun u a he => hop a (hev u a he)
  cases op with
  | new =>
    have hend : ∀ {p : Code (Except ProviderError Unit)} {l : List Entry},
        p.Enters (fun a => ∀ before live, a ≠ .settle before live) →
        Text cfg t (SettleText t) (fun _ _ => True) p l := fun hp =>
      Machine.Follows.of_enters hp fun _ _ _ hev => settleText_of_ne hev
    refine Machine.Follows.map (Machine.Follows.orReturn (P := fun _ _ => True)
      (hend (enters_loadState nofun)) (fun _ _ _ => trivial) fun l _ _ => ?_)
    split
    · refine Text.enter fun s => ⟨settleText_of_ne fun u a he => by cases he; nofun, ?_⟩
      exact Machine.Follows.call (settle_verify _) fun l _ _ => hend enters_writeBack
    · exact hend enters_writeBack
  | createPod pod => exact Machine.Follows.map (settle_createPod [])
  | updatePod pod =>
    refine Machine.Follows.map (Text.look fun s => ⟨settleText_read, ?_⟩)
    split
    · trivial
    refine Text.enter fun s => ⟨settleText_of_ne fun u a he => by cases he; nofun, ?_⟩
    split
    · exact settle_createPod _
    · trivial
  | claimVerification =>
    refine Machine.Follows.map (Machine.Follows.call (settle_verify _) fun l b _ => ?_)
    split
    · trivial
    · exact Text.last_look fun s => ⟨settleText_read, trivial⟩
  | deletePod pod => exact hother fun a ha before live he => by subst he; exact ha
  | publishExpiredLeases => exact hother fun a ha before live he => by subst he; exact ha
  | recheckOwners now base => exact hother fun a ha before live he => by subst he; exact ha
  | orphanScan => exact hother fun a ha before live he => by subst he; exact ha
  | notifyPods => exact hother fun a ha before live he => by subst he; exact ha

/-- **The rows a `settle` finds quarantined are rows its snapshot has**, with the same ids. -/
theorem Runs.settle_covers (h : Runs cfg file tr x) {before : Table Key String}
    {live : Table String Time} (hs : Step (machine cfg) x (.locked t (.settle before live)) x')
    {k : Key} {c : Claim} (hq : k ∈ x.shared.mem.quarantined) (hc : x.shared.row k = some c) :
    before.lookup k = some c.id := by
  obtain ⟨op, -, htext⟩ := h.locked (follows_settle cfg t) hs
  obtain ⟨l₁, l₂, s, hj, rfl, hasked⟩ := htext before live rfl
  obtain ⟨cq, hcq, hloaded⟩ := h.inv.quarantined hq
  obtain rfl : cq = c := Option.some.inj (hcq.symm.trans hc)
  by_cases ht : t = .boot
  · -- `New` is alone, and has not entered a section since
    subst ht
    have hmem : x.shared.mem = s.mem := by
      refine Run.journal_keeps (T := fun ev => ∃ u a, ev = .locked u a) h ?_ ?_ hj ?_
      · intro tr x ev x' h hs htid hres hT
        have ha : apply ev x.shared = some x'.shared := Step.apply hs
        obtain ⟨hm, -⟩ | ⟨u, a, he, -⟩ | ⟨hend, -⟩ := (effect ha).tables
        · exact hm
        · exact absurd ⟨u, a, he⟩ hT
        · cases ev with
          | finished u op r => cases htid; exact absurd rfl hres
          | crashed => cases htid
          | _ => cases hend
      · intro tr x ev x' h hs htid hres hne
        have hrun : Runs cfg file tr x := h
        obtain ⟨hg, ha⟩ := hrun.next hs
        cases hu : ev.tid with
        | none =>
          cases ev with
          | crashed => exact absurd trivial hres
          | _ => cases hu
        | some u =>
          obtain ⟨rfl, -⟩ | ⟨-, hup⟩ := hg.up_or_booting ha hu
          · exact absurd hu htid
          · rw [hrun.booting_of_journal hne] at hup
            cases hup
      · intro e he
        rintro ⟨u, a, hlock⟩
        rcases List.mem_cons.mp he with rfl | he
        · cases hlock
        · obtain ⟨q, r, hask⟩ := hasked e he
          cases hask.symm.trans hlock
    rw [← hmem]
    exact Memory.lookup_unverified.mpr ⟨cq, hcq, hq, rfl⟩
  · have hmem : (.read t, s) ∈ journal cfg file t tr := by rw [hj]; simp
    have hev : Evolves s x.shared := h.entry_evolves ht hmem
    obtain ⟨c₀, hc₀, hsame, -, hq₀⟩ | hnew := hev.rows hc
    · exact Memory.lookup_unverified.mpr ⟨c₀, hc₀, hq₀ hq, hsame.id.symm⟩
    · exact absurd (hev.loaded ▸ hloaded) hnew.1

end Runs

end VkSandbox
