import VkSandbox.Provider.Entries

/-!
# Provider/Requests — which call asks for what

    New                    the state file, the listing, the clock
    CreatePod, UpdatePod   the listing, Claim for its own key, Release, the state file, the notifier
    DeletePod              its own owner, Release, the state file
    RunClaimVerification   the listing
    publishExpiredLeases   the listing, the notifier
    recheckOwners          owners, Release, the state file
    OrphanScan             the listing
    NotifyPods             nothing

`asks_code` is this table, in the same way as `enters_code` is the one for sections.
-/

namespace VkSandbox

open Interleave Interleave.Prog

variable {cfg : Config} {P : Request → Prop}

/-- A request of `persist` or `commitClaim`. -/
def Request.Saves : Request → Prop
  | .lockSave | .unlockSave | .mkdirAll | .writeFile _ | .rename => True
  | _ => False

/-- A request of `Sandboxes`. -/
def Request.Lists : Request → Prop
  | .sendList | .sandboxes => True
  | _ => False

/-- The calls that write the state file. -/
def Op.saves : Op → Bool
  | .new | .createPod _ | .updatePod _ | .deletePod _ | .recheckOwners _ _ => true
  | _ => false

/-- The calls that list the node. -/
def Op.lists : Op → Bool
  | .new | .createPod _ | .updatePod _ | .claimVerification | .publishExpiredLeases
  | .orphanScan => true
  | _ => false

/-- A request of `CreatePod` for `pod`, beside these. -/
def CreateRequest (pod : Pod) : Request → Prop
  | .now | .sendRelease _ _ | .release _ _ => True
  | .sendClaim spec | .claim spec => claimSpec pod = .ok spec
  | .notify p => ∃ c, p = runningPod pod c
  | _ => False

/-- The other requests of a call. -/
def Op.Requests (P : Platform) : Op → Request → Prop
  | .new, .readFile | .new, .now => True
  | .createPod pod, e | .updatePod pod, e => CreateRequest pod e
  | .deletePod pod, .getOwner key gvr ns name => key = pod.key ∧ ns = pod.ns ∧
      ∃ ref, controllerOf pod = some ref ∧ ownerGVR P ref.apiVersion ref.kind = some gvr ∧
        ref.name = name
  | .deletePod _, .sendRelease _ _ | .deletePod _, .release _ _ => True
  | .publishExpiredLeases, .now | .publishExpiredLeases, .rangeOver _ => True
  | .publishExpiredLeases, .notify p => ∃ pod c, p = expiredPod P pod c
  | .recheckOwners _ _, .getOwner key _ ns _ => ns = namespaceOf key
  | .recheckOwners _ _, .sendRelease _ _ | .recheckOwners _ _, .release _ _
  | .recheckOwners _ _, .rangeOver _ => True
  | .orphanScan, .rangeOver _ => True
  | _, _ => False

/-- **The requests a call may make.** -/
def Op.MayAsk (P : Platform) (op : Op) (e : Request) : Prop :=
  op.saves ∧ e.Saves ∨ op.lists ∧ e.Lists ∨ op.Requests P e

theorem Op.MayAsk.saves {P : Platform} {op : Op} {e : Request} (hop : op.saves) (h : e.Saves) :
    op.MayAsk P e :=
  .inl ⟨hop, h⟩

theorem Op.MayAsk.lists {P : Platform} {op : Op} {e : Request} (hop : op.lists) (h : e.Lists) :
    op.MayAsk P e :=
  .inr (.inl ⟨hop, h⟩)

theorem Op.MayAsk.own {P : Platform} {op : Op} {e : Request} (h : op.Requests P e) :
    op.MayAsk P e := .inr (.inr h)

/-- None of those writes the state file. -/
theorem Op.Requests.not_saves {P : Platform} {op : Op} {e : Request} (h : op.Requests P e) :
    ¬ e.Saves := by
  cases e with
  | lockSave | unlockSave | mkdirAll | writeFile st | rename => cases op <;> cases h
  | _ => exact id

theorem Request.Lists.not_saves {e : Request} (h : e.Lists) : ¬ e.Saves := by
  cases e with
  | sendList | sandboxes => exact id
  | _ => cases h

/-! ## The helpers -/

theorem asks_request {α : Type} {e : Request} {g : Reply e → Code α} (he : P e)
    (h : ∀ r, (g r).Asks P) : (request e >>= g).Asks P := ⟨he, h⟩

theorem asks_sandboxes {α : Type} {g : Except String (List SandboxSummary) → Code α}
    (hP : ∀ e : Request, e.Lists → P e) (h : ∀ r, (g r).Asks P) : (sandboxes >>= g).Asks P :=
  ⟨hP _ trivial, fun _ => ⟨hP _ trivial, h⟩⟩

theorem asks_release {α : Type} {id token : String} {g : Except String Unit → Code α}
    (hs : P (.sendRelease id token)) (hr : P (.release id token)) (h : ∀ r, (g r).Asks P) :
    (release id token >>= g).Asks P := ⟨hs, fun _ => ⟨hr, h⟩⟩

theorem asks_write (hP : ∀ e : Request, e.Saves → P e) (committing : Option Key) :
    (write cfg committing).Asks P := by
  unfold write
  split
  · trivial
  refine .look fun m => asks_request (hP _ trivial) fun r => ?_
  cases r with
  | error err => trivial
  | ok u =>
    refine asks_request (hP _ trivial) fun r => ?_
    cases r with
    | error err => trivial
    | ok u =>
      refine asks_request (hP _ trivial) fun r => ?_
      cases r <;> trivial

theorem asks_persist (hP : ∀ e : Request, e.Saves → P e) : (persist cfg).Asks P :=
  asks_request (hP _ trivial) fun _ =>
    (asks_write hP none).bind fun _ => asks_request (hP _ trivial) fun _ => trivial

theorem asks_saveState (hP : ∀ e : Request, e.Saves → P e) : (saveState cfg).Asks P :=
  (asks_persist hP).bind fun _ => trivial

theorem asks_notify {pod : Pod} (h : P (.notify pod)) : (notify pod).Asks P := by
  refine .look fun m => ?_
  split
  · exact ⟨h, fun _ => trivial⟩
  · trivial

theorem asks_commitClaim (hP : ∀ e : Request, e.Saves → P e) (key : Key) :
    (commitClaim cfg key).Asks P := by
  refine asks_request (hP _ trivial) fun _ => (asks_write hP (some key)).bind fun r => ?_
  cases r with
  | error err => exact asks_request (hP _ trivial) fun _ => trivial
  | ok u => exact .enter fun _ => asks_request (hP _ trivial) fun _ => trivial

theorem asks_verify (hP : ∀ e : Request, e.Lists → P e) : (verifyClaimsAgainstNode cfg).Asks P := by
  unfold verifyClaimsAgainstNode
  split
  · trivial
  refine .look fun m => ?_
  split
  · trivial
  refine asks_sandboxes hP fun r => ?_
  cases r with
  | error err => trivial
  | ok listed => exact .enter fun _ => trivial

theorem asks_destroyAuthorized {key : Key} {ns : String} {owner : Option OwnerReference}
    (h : ∀ ref gvr, owner = some ref → ownerGVR cfg.platform ref.apiVersion ref.kind = some gvr →
      P (.getOwner key gvr ns ref.name)) : (destroyAuthorized cfg key ns owner).Asks P := by
  cases owner with
  | none => trivial
  | some ref =>
    simp only [destroyAuthorized]
    split
    · trivial
    split
    · trivial
    · next gvr hgvr => exact asks_request (h ref gvr rfl hgvr) fun _ => trivial

/-! ## `CreatePod` and its callers -/

variable {pod : Pod}

theorem asks_settleExpired (key : Key) :
    (settleExpiredClaim cfg key).Asks fun e => e = .now ∨ e.Lists := by
  refine .look fun m => ?_
  split
  · trivial
  refine asks_request (.inl rfl) fun now => ?_
  split
  · trivial
  split
  · exact .enter fun _ => trivial
  refine asks_sandboxes (fun _ => .inr) fun r => ?_
  cases r with
  | error err => trivial
  | ok listed =>
    dsimp only
    split
    · exact .enter fun _ => trivial
    · exact .enter fun _ => trivial

theorem asks_clearStranded {P : Platform} (key : Key) :
    (clearStrandedClaim key).Asks ((Op.createPod pod).Requests P) := by
  refine .look fun m => ?_
  split
  · trivial
  refine asks_release trivial trivial fun r => ?_
  cases r with
  | error err => trivial
  | ok u => exact .enter fun _ => trivial

theorem asks_recordClaim (res : ClaimResult) :
    (recordClaim cfg pod res).Asks ((Op.createPod pod).MayAsk cfg.platform) := by
  refine asks_request (.own trivial) fun now => .enter fun _ => ?_
  refine (asks_commitClaim (fun _ => .saves rfl) _).bind fun r => ?_
  cases r with
  | error err =>
    refine asks_release (.own trivial) (.own trivial) fun r => ?_
    cases r with
    | error err => trivial
    | ok u => exact .enter fun _ => trivial
  | ok u => exact (asks_notify (.own ⟨_, rfl⟩)).bind fun _ => trivial

theorem asks_claimFresh : (claimFresh cfg pod).Asks ((Op.createPod pod).MayAsk cfg.platform) := by
  unfold claimFresh
  split
  · trivial
  next spec hspec =>
  refine asks_request (.own hspec) fun _ => asks_request (.own hspec) fun r => ?_
  cases r with
  | error err => trivial
  | ok res => exact asks_recordClaim res

theorem asks_createPod : (createPod cfg pod).Asks ((Op.createPod pod).MayAsk cfg.platform) := by
  unfold createPod
  dsimp only
  split
  · trivial
  have hsettle : (settleExpiredClaim cfg pod.key).Asks ((Op.createPod pod).MayAsk cfg.platform) :=
    (asks_settleExpired _).mono fun e he => by
      obtain rfl | he := he
      · exact .own trivial
      · exact .lists rfl he
  refine .orReturn ?_ fun _ => hsettle.orReturn fun _ => .enter fun m => ?_
  · refine .look fun m => ?_
    split
    · trivial
    refine (asks_verify fun _ => .lists rfl).bind fun b => ?_
    split <;> trivial
  · split
    · exact (asks_saveState fun _ => .saves rfl).bind fun _ => (asks_notify (.own ⟨_, rfl⟩)).bind
        fun _ => trivial
    · exact ((asks_clearStranded _).mono fun _ => .own).orReturn fun _ => asks_claimFresh

theorem asks_updatePod : (updatePod cfg pod).Asks ((Op.updatePod pod).MayAsk cfg.platform) := by
  refine .look fun m => ?_
  split
  · trivial
  refine .enter fun m => ?_
  split
  · exact asks_createPod
  · trivial

theorem asks_deletePod : (deletePod cfg pod).Asks ((Op.deletePod pod).MayAsk cfg.platform) := by
  refine .look fun m => ?_
  split
  · trivial
  refine .look fun m => ?_
  split
  · exact .enter fun _ => trivial
  refine (asks_destroyAuthorized fun ref gvr href hgvr =>
    .own ⟨rfl, rfl, ref, href, hgvr, rfl⟩).bind fun v => ?_
  have hsave : (saveState cfg).Asks ((Op.deletePod pod).MayAsk cfg.platform) :=
    asks_saveState fun _ => .saves rfl
  split
  · exact .enter fun _ => hsave.bind fun _ => trivial
  refine asks_release (.own trivial) (.own trivial) fun r => ?_
  cases r with
  | error err => trivial
  | ok u => exact .enter fun _ => hsave.bind fun _ => trivial

/-! ## The loops -/

variable {now : Time} {base : ℕ}

theorem asks_recheckOwner (key : Key) (c : Claim) :
    (recheckOwner cfg now base key c).Asks ((Op.recheckOwners now base).Requests cfg.platform) := by
  refine .look fun m => ?_
  split
  · trivial
  refine (asks_destroyAuthorized fun _ _ _ _ => rfl).bind fun v => ?_
  split
  · exact .enter fun _ => .enter fun _ => trivial
  · exact .enter fun _ => trivial

theorem asks_recheckLoop (rows : Table Key Claim) (keys : List Key) (changed : Bool) :
    (recheckLoop cfg now base rows keys changed).Asks
      ((Op.recheckOwners now base).Requests cfg.platform) := by
  induction keys generalizing changed with
  | nil => trivial
  | cons key rest ih =>
    unfold recheckLoop
    split
    · exact ih changed
    · exact (asks_recheckOwner _ _).bind fun moved => ih _

theorem asks_drainLoop {P : Platform} (q : List Claim) (released : Bool) :
    (drainLoop q released).Asks ((Op.recheckOwners now base).Requests P) := by
  induction q generalizing released with
  | nil => trivial
  | cons c rest ih =>
    refine asks_release trivial trivial fun r => ?_
    cases r with
    | error err => exact ih released
    | ok u => exact .enter fun _ => ih true

theorem asks_recheckOwners :
    (recheckOwners cfg now base).Asks ((Op.recheckOwners now base).MayAsk cfg.platform) := by
  refine .look fun m => .enter fun _ => asks_request (.own trivial) fun order => ?_
  refine ((asks_recheckLoop _ _ _).mono fun _ => .own).bind fun changed => ?_
  refine Asks.bind (.look fun m => (asks_drainLoop _ _).mono fun _ => .own) fun drained => ?_
  split
  · exact asks_saveState fun _ => .saves rfl
  · trivial

theorem asks_publishLoop (rows : Table Key Claim) (live : Table String Time) (keys : List Key) :
    (publishLoop cfg rows live keys).Asks (Op.publishExpiredLeases.MayAsk cfg.platform) := by
  induction keys with
  | nil => trivial
  | cons key rest ih =>
    unfold publishLoop
    split
    · exact ih
    split
    · exact .enter fun _ => ih
    refine .look fun m => ?_
    split
    · dsimp only
      split
      · exact (asks_notify (.own ⟨_, _, rfl⟩)).bind fun _ => ih
      · exact ih
    · exact ih

theorem asks_publishExpiredLeases :
    (publishExpiredLeases cfg).Asks (Op.publishExpiredLeases.MayAsk cfg.platform) := by
  refine asks_request (.own trivial) fun now => .look fun m => ?_
  split
  · trivial
  split
  · exact asks_request (.own trivial) fun order => asks_publishLoop _ _ _
  refine asks_sandboxes (fun _ => .lists rfl) fun r => ?_
  cases r with
  | error err => trivial
  | ok listed => exact asks_request (.own trivial) fun order => asks_publishLoop _ _ _

theorem asks_orphanScan : (orphanScan cfg).Asks (Op.orphanScan.MayAsk cfg.platform) := by
  unfold orphanScan
  split
  · trivial
  refine asks_sandboxes (fun _ => .lists rfl) fun r => ?_
  cases r with
  | error err => trivial
  | ok listed =>
    exact .look fun m => asks_request (.own trivial) fun _ => asks_request (.own trivial) fun _ =>
      .enter fun _ => trivial

/-! ## The table -/

theorem asks_loadState : (loadState cfg).Asks fun e => e = .readFile ∨ e = .now := by
  unfold loadState
  split
  · trivial
  refine asks_request (.inl rfl) fun r => ?_
  cases r with
  | decoded st => exact asks_request (.inr rfl) fun now => .enter fun _ => trivial
  | _ => trivial

theorem asks_new : (new cfg).Asks (Op.new.MayAsk cfg.platform) := by
  have hload : (loadState cfg).Asks (Op.new.MayAsk cfg.platform) :=
    asks_loadState.mono fun e he => by obtain rfl | rfl := he <;> exact .own trivial
  have hpersist : (persist cfg).Asks (Op.new.MayAsk cfg.platform) :=
    asks_persist fun _ => .saves rfl
  refine hload.orReturn fun _ => ?_
  split
  · refine .enter fun _ => (asks_verify fun _ => .lists rfl).bind fun _ => hpersist.bind fun r => ?_
    cases r <;> trivial
  · refine hpersist.bind fun r => ?_
    cases r <;> trivial

/-- **Which call asks for what.** -/
theorem asks_code (op : Op) : (code cfg op).Asks (op.MayAsk cfg.platform) := by
  cases op with
  | new => exact asks_new.bind fun _ => trivial
  | createPod pod => exact asks_createPod.bind fun _ => trivial
  | updatePod pod => exact asks_updatePod.bind fun _ => trivial
  | deletePod pod => exact asks_deletePod.bind fun _ => trivial
  | claimVerification =>
    refine Asks.bind ?_ fun _ => trivial
    refine (asks_verify fun _ => .lists rfl).bind fun b => ?_
    split
    · trivial
    · exact fun _ => trivial
  | publishExpiredLeases => exact asks_publishExpiredLeases.bind fun _ => trivial
  | recheckOwners now base => exact asks_recheckOwners.bind fun _ => trivial
  | orphanScan => exact asks_orphanScan.bind fun _ => trivial
  | notifyPods => exact .enter fun _ => trivial

section Runs

variable {file : File} {tr : List Ev} {t : Tid}
  {x x' : Interleave.Config State Memory Section Request Reply Tid Op Outcome}

/-- **A thread asks only what its call does.** -/
theorem Runs.mayAsk (h : Runs cfg file tr x) {e : Request} {r : Reply e}
    (hs : Step (machine cfg) x (.asked t e r) x') :
    ∃ op, InCall x t op ∧ op.MayAsk cfg.platform e := by
  have hf : Follows cfg t (fun op _ ev _ => ∀ u e r, ev = .asked u e r → op.MayAsk cfg.platform e)
      (fun _ _ _ => True) :=
    fun op _ _ _ => Machine.Follows.of_asks (asks_code op) fun _ _ _ h => h
  obtain ⟨op, hop, hmay⟩ := h.asked hf hs
  exact ⟨op, hop, hmay t e r rfl⟩

/-- **A thread is only ever in one of its own calls.** -/
theorem Runs.mayCall (h : Runs cfg file tr x) {op : Op} (hop : InCall x t op) :
    t = .boot ∧ op = .new ∨ mayCall t op := by
  obtain ⟨tr₁, tr₂, rfl⟩ := List.append_of_mem (h.started_inCall hop)
  obtain ⟨x₁, x₂, -, hs, -⟩ := Run.split h
  exact mayCall_of_started (Step.apply hs)

end Runs

end VkSandbox
