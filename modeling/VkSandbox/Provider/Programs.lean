import VkSandbox.Machinery.Prog
import VkSandbox.Provider.Memory
import VkSandbox.Provider.Ownership
import VkSandbox.Provider.Status

/-!
# Provider/Programs — the methods of `Provider`, as interleaved programs

Each method of `provider/*.go` under its own name.  A read-locked section is a `look`, a
write-locked one an `enter`, and everything that leaves the process is a `request`: sandboxd, the
owner read, the status callback, the file system, the clock, the save lock, and the order in which
Go ranges over a map.  A call to sandboxd is two requests, one when it is sent and one when its
reply arrives, because other goroutines run in between.
-/

namespace VkSandbox

open Interleave Interleave.Prog

/-! ## Reads

The getters look at the tables once, under the read lock. -/

/-- `GetPod`. -/
def getPod (m : Memory) (ns name : String) : Option Pod := m.pods.lookup (podKey ns name)

/-- `GetPods`, when its range loop visits the Pods in `order`. -/
def getPods (m : Memory) (order : List Key) : List Pod := order.filterMap m.pods.lookup

/-- `GetPodStatus`, asked at `now`. -/
def getPodStatus (P : Platform) (m : Memory) (now : Time) (ns name : String) : Option PodStatus :=
  let key := podKey ns name
  match m.pods.lookup key with
  | none => none
  | some pod =>
    match m.claimFor key with
    | none => some { pod.status with phase := .pending }
    | some c => some (if c.expired now then expiredStatus P pod c else runningStatus pod c)

/-- A status that is not pending is that of a settled claim. -/
theorem claimFor_of_getPodStatus {P : Platform} {m : Memory} {now : Time} {ns name : String}
    {st : PodStatus} (h : getPodStatus P m now ns name = some st) (hst : st.phase ≠ .pending) :
    ∃ c, m.claimFor (podKey ns name) = some c := by
  simp only [getPodStatus] at h
  split at h
  · cases h
  · split at h
    · cases h
      exact absurd rfl hst
    · next c hc => exact ⟨c, hc⟩

/-! ## Requests and replies -/

/-- What a method asks of the world outside its tables. -/
inductive Request where
  /-- `time.Now`. -/
  | now
  /-- The order in which a range loop visits these keys. -/
  | rangeOver (keys : Finset Key)
  /-- `client.Claim`: the call, then its reply. -/
  | sendClaim (spec : ClaimSpec)
  | claim (spec : ClaimSpec)
  /-- `client.Release`: the call, then its reply. -/
  | sendRelease (id token : String)
  | release (id token : String)
  /-- `lister.Sandboxes`: the call, then its reply. -/
  | sendList
  | sandboxes
  /-- The dynamic client's `Get`; `key` is the pod key the read is made for. -/
  | getOwner (key : Key) (gvr : GroupVersionResource) (ns name : String)
  /-- The registered notifier. -/
  | notify (pod : Pod)
  /-- `saveMu`. -/
  | lockSave
  | unlockSave
  /-- `write`'s three file operations. -/
  | mkdirAll
  | writeFile (st : StateFile)
  | rename
  /-- `loadState`'s read. -/
  | readFile

/-- What `loadState` finds at the state path. -/
inductive FileRead where
  | absent
  | failed (err : String)
  | undecodable (err : String)
  | decoded (st : StateFile)

/-- The replies. -/
@[reducible] def Reply : Request → Type
  | .now => Time
  | .rangeOver _ => List Key
  | .claim _ => Except String ClaimResult
  | .release _ _ => Except String Unit
  | .sandboxes => Except String (List SandboxSummary)
  | .getOwner _ _ _ _ => OwnerRead
  | .mkdirAll | .writeFile _ | .rename => Except String Unit
  | .readFile => FileRead
  | .sendClaim _ | .sendRelease _ _ | .sendList | .notify _ | .lockSave | .unlockSave => Unit

/-- Programs over the provider's tables. -/
abbrev Code := Prog Memory Section Request Reply

/-- Send `e` and wait for its reply. -/
def request (e : Request) : Code (Reply e) := ask e ret

/-- `client.Claim`. -/
def claim (spec : ClaimSpec) : Code (Except String ClaimResult) := do
  request (.sendClaim spec)
  request (.claim spec)

/-- `client.Release`. -/
def release (id token : String) : Code (Except String Unit) := do
  request (.sendRelease id token)
  request (.release id token)

/-- `lister.Sandboxes`. -/
def sandboxes : Code (Except String (List SandboxSummary)) := do
  request .sendList
  request .sandboxes

/-- `notify`. -/
def notify (pod : Pod) : Code Unit := do
  if ← look (·.notifier) then request (.notify pod)

/-! ## The state file -/

/-- `write`: the durable rows plus the committing one, by way of a temporary file. -/
def write (cfg : Config) (committing : Option Key) : Code (Except ProviderError Unit) := do
  if !cfg.statePath then return .ok ()
  let st ← look (·.snapshot committing)
  match ← request .mkdirAll with
  | .error err => return .error (.mkdirState err)
  | .ok () =>
    match ← request (.writeFile st) with
    | .error err => return .error (.writeState err)
    | .ok () =>
      match ← request .rename with
      | .error err => return .error (.renameState err)
      | .ok () => return .ok ()

/-- `persist`. -/
def persist (cfg : Config) : Code (Except ProviderError Unit) := do
  request .lockSave
  let r ← write cfg none
  request .unlockSave
  return r

/-- `saveState`: a failed persist is only logged. -/
def saveState (cfg : Config) : Code Unit := do
  let _ ← persist cfg

/-- `commitClaim`: the marker clears only after the rename lands. -/
def commitClaim (cfg : Config) (key : Key) : Code (Except ProviderError Unit) := do
  request .lockSave
  match ← write cfg (some key) with
  | .error err =>
    request .unlockSave
    return .error err
  | .ok () =>
    enter (.clearTentative key) fun _ => ()
    request .unlockSave
    return .ok ()

/-! ## Verification -/

/-- `VerifyClaimsAgainstNode`. -/
def verifyClaimsAgainstNode (cfg : Config) : Code Bool := do
  if !cfg.lister then return false
  let before ← look Memory.unverified
  if before.keys = ∅ then return true
  match ← sandboxes with
  | .error _ => return false
  | .ok listed =>
    enter (.settle before (liveDeadlines listed)) fun _ => ()
    return true

/-- The tick of `RunClaimVerification`: whether the loop goes on. -/
def claimVerificationTick (cfg : Config) : Code Bool := do
  if !(← verifyClaimsAgainstNode cfg) then return true
  look fun m => decide (m.quarantined ≠ ∅)

/-! ## `CreatePod` -/

/-- `pushRunning`. -/
def pushRunning (pod : Pod) (c : Claim) : Code Unit := notify (runningPod pod c)

/-- `resolveUnverifiedClaim`. -/
def resolveUnverifiedClaim (cfg : Config) (key : Key) : Code (Except ProviderError Unit) := do
  if !(← look fun m => decide (key ∈ m.quarantined)) then return .ok ()
  if ← verifyClaimsAgainstNode cfg then return .ok ()
  return .error (.unverified key)

/-- `settleExpiredClaim`. -/
def settleExpiredClaim (cfg : Config) (key : Key) : Code (Except ProviderError Unit) := do
  match ← look (·.claimFor key) with
  | none => return .ok ()
  | some c =>
    if !c.expired (← request .now) then return .ok ()
    if !cfg.lister then
      enter (.dropClaim key c.id) fun _ => ()
      return .ok ()
    match ← sandboxes with
    | .error err => return .error (.expiredUnlistable key c.id err)
    | .ok listed =>
      match listed.find? (·.id = c.id) with
      | some row =>
        enter (.refreshDeadline key c.id row.deadline) fun _ => ()
        return .ok ()
      | none =>
        enter (.dropClaim key c.id) fun _ => ()
        return .ok ()

/-- `adoptExistingClaim`. -/
def adoptExistingClaim (key : Key) (pod : Pod) : Code (Option Claim) :=
  enter (.adoptExistingClaim key pod) (·.adopted key pod)

/-- `clearStrandedClaim`. -/
def clearStrandedClaim (key : Key) : Code (Except ProviderError Unit) := do
  match ← look fun m => if key ∈ m.tentative then m.claims.lookup key else none with
  | none => return .ok ()
  | some c =>
    match ← release c.id c.token with
    | .error err => return .error (.stranded key c.id err)
    | .ok () =>
      enter (.withdrawClaim key c.id) fun _ => ()
      return .ok ()

/-- `undoUnpersistedClaim`. -/
def undoUnpersistedClaim (cfg : Config) (key : Key) (c : Claim) (persistErr : ProviderError) :
    Code (Except ProviderError Unit) := do
  match ← release c.id c.token with
  | .error err => return .error (.persistAndUndoFailed key (persistErr.text cfg.platform) c.id err)
  | .ok () =>
    enter (.withdrawClaim key c.id) fun _ => ()
    return .error (.persistFailed key (persistErr.text cfg.platform))

/-- The value of a decimal string without sign, most significant digit first. -/
def decimal (cs : List Char) : Option ℕ :=
  if cs = [] then none
  else cs.foldl (fun acc c => acc.bind fun n =>
    if c.isDigit then some (n * 10 + (c.toNat - '0'.toNat)) else none) (some 0)

/-- `strconv.Atoi`: an optional sign, decimal digits, in the range of a 64-bit `int`. -/
def atoi (s : String) : Option ℤ :=
  let v : Option ℤ := match s.toList with
    | '-' :: cs => (decimal cs).map fun n => -(n : ℤ)
    | '+' :: cs => (decimal cs).map fun n => (n : ℤ)
    | cs => (decimal cs).map fun n => (n : ℤ)
  v.bind fun n => if -2 ^ 63 ≤ n ∧ n < 2 ^ 63 then some n else none

/-- The claim lease a Pod asks for. -/
def claimTTL (pod : Pod) : Except ProviderError ℤ :=
  let s := ann pod annTTLSeconds ""
  if s = "" then .ok defaultClaimTTLSeconds
  else match atoi s with
    | some v => if v < 0 then .error (.invalidTTL pod.key s) else .ok v
    | none => .error (.invalidTTL pod.key s)

/-- The claim request of a Pod, or what is wrong with its annotations. -/
def claimSpec (pod : Pod) : Except ProviderError ClaimSpec :=
  match claimTTL pod with
  | .error err => .error err
  | .ok ttl =>
    let spec : ClaimSpec :=
      { template := ann pod annTemplate "", net := ann pod annNet "", size := ann pod annSize "",
        ttlSeconds := ttl, claimRef := pod.key }
    if spec.template = "" then .error (.missingTemplate pod.key) else .ok spec

/-- The end of `CreatePod`: a fresh claim, recorded, committed and published. -/
def recordClaim (cfg : Config) (pod : Pod) (res : ClaimResult) :
    Code (Except ProviderError Unit) := do
  let c := Claim.ofResult res pod (← request .now)
  enter (.insertClaim pod.key pod c) fun _ => ()
  match ← commitClaim cfg pod.key with
  | .error err => undoUnpersistedClaim cfg pod.key c err
  | .ok () =>
    pushRunning pod c
    return .ok ()

/-- `CreatePod` once nothing is left at its key: claim a sandbox. -/
def claimFresh (cfg : Config) (pod : Pod) : Code (Except ProviderError Unit) := do
  match claimSpec pod with
  | .error err => return .error err
  | .ok spec =>
    match ← claim spec with
    | .error err => return .error (.claimFailed pod.key spec.template err)
    | .ok res => recordClaim cfg pod res

/-- `CreatePod`. -/
def createPod (cfg : Config) (pod : Pod) : Code (Except ProviderError Unit) :=
  let key := pod.key
  let rt := ann pod annRuntime runtimeSandboxd
  if rt ≠ runtimeSandboxd then return .error (.wrongRuntime key rt)
  else
    (resolveUnverifiedClaim cfg key).orReturn fun _ =>
    (settleExpiredClaim cfg key).orReturn fun _ => do
    match ← adoptExistingClaim key pod with
    | some c =>
      saveState cfg
      pushRunning pod c
      return .ok ()
    | none => (clearStrandedClaim key).orReturn fun _ => claimFresh cfg pod

/-! ## `UpdatePod` and `DeletePod` -/

/-- `UpdatePod`. -/
def updatePod (cfg : Config) (pod : Pod) : Code (Except ProviderError Unit) := do
  let key := pod.key
  if !(← look (·.podUIDIsCurrent key pod)) then return .ok ()
  if ← enter (.updatePod key pod) fun m => decide (key ∈ m.tentative) then createPod cfg pod
  else return .ok ()

/-- `destroyAuthorized`, for the Pod or the claim at `key`. -/
def destroyAuthorized (cfg : Config) (key : Key) (ns : String) :
    Option OwnerReference → Code (AuthVerdict × String)
  | none => return (.release, "bare pod: pod deletion is the owner teardown")
  | some ref => do
    if !cfg.dynamic then return (.preserve, "no dynamic client: owner state unverifiable")
    match ownerGVR cfg.platform ref.apiVersion ref.kind with
    | none => return (.preserve, "owner GVR unresolvable for kind " ++ ref.kind)
    | some gvr => return judgeOwner ref (← request (.getOwner key gvr ns ref.name))

/-- `preserveClaim`. -/
def preserveClaim (cfg : Config) (key id : String) (owner : Option OwnerReference) : Code Unit := do
  enter (.preserveClaim key id owner) fun _ => ()
  saveState cfg

/-- `DeletePod`. -/
def deletePod (cfg : Config) (pod : Pod) : Code (Except ProviderError Unit) := do
  let key := pod.key
  if !(← look (·.podUIDIsCurrent key pod)) then return .ok ()
  match ← look (·.claims.lookup key) with
  | none =>
    enter (.forgetPod key) fun _ => ()
    return .ok ()
  | some c =>
    let owner := controllerOf pod
    match ← destroyAuthorized cfg key pod.ns owner with
    | (.preserve, _) =>
      preserveClaim cfg key c.id owner
      return .ok ()
    | (.release, _) =>
      match ← release c.id c.token with
      | .error err => return .error (.releaseFailed c.id key err)
      | .ok () =>
        enter (.withdrawClaim key c.id) fun _ => ()
        saveState cfg
        return .ok ()

/-! ## The background loops -/

def ownerRecheckMaxDelay : ℕ := 10 * minute

/-- `strings.Cut(key, "/")`: what stands before the first slash. -/
def namespaceOf (key : Key) : String := String.ofList (key.toList.takeWhile (· ≠ '/'))

/-- One iteration of `recheckOwners`: whether it moved the claim to the release queue. -/
def recheckOwner (cfg : Config) (now : Time) (base : ℕ) (key : Key) (c : Claim) : Code Bool := do
  let r ← look (·.ownerRechecks.lookup key)
  if r.any fun r => now < r.due then return false
  match ← destroyAuthorized cfg key (namespaceOf key) c.owner with
  | (.release, _) =>
    let moved ← enter (.withdrawForRelease key c) (·.withdrawable key c)
    enter (.setRecheck key none) fun _ => ()
    return moved
  | (.preserve, _) =>
    let delay := match r with
      | some r => min (2 * r.delay) ownerRecheckMaxDelay
      | none => base
    enter (.setRecheck key (some ⟨now + delay, delay⟩)) fun _ => ()
    return false

/-- The loop of `recheckOwners` over the preserved rows. -/
def recheckLoop (cfg : Config) (now : Time) (base : ℕ) (rows : Table Key Claim) :
    List Key → Bool → Code Bool
  | [], changed => return changed
  | key :: rest, changed => do
    match rows.lookup key with
    | none => recheckLoop cfg now base rows rest changed
    | some c =>
      let moved ← recheckOwner cfg now base key c
      recheckLoop cfg now base rows rest (changed || moved)

/-- The loop of `drainReleases`: whether some release succeeded. -/
def drainLoop : List Claim → Bool → Code Bool
  | [], released => return released
  | c :: rest, released => do
    match ← release c.id c.token with
    | .error _ => drainLoop rest released
    | .ok () =>
      enter (.dequeue c.id) fun _ => ()
      drainLoop rest true

/-- `drainReleases`. -/
def drainReleases : Code Bool := do
  let queued ← look (·.releasing)
  drainLoop queued false

/-- `recheckOwners`. -/
def recheckOwners (cfg : Config) (now : Time) (base : ℕ) : Code Unit := do
  let rows ← look Memory.preserved
  enter (.pruneRechecks rows.keys) fun _ => ()
  let order ← request (.rangeOver rows.keys)
  let changed ← recheckLoop cfg now base rows order false
  let drained ← drainReleases
  if drained || changed then saveState cfg

/-- The loop of `publishExpiredLeases` over its candidates. -/
def publishLoop (cfg : Config) (rows : Table Key Claim) (live : Table String Time) :
    List Key → Code Unit
  | [] => return ()
  | key :: rest => do
    match rows.lookup key with
    | none => publishLoop cfg rows live rest
    | some c =>
      match live.lookup c.id with
      | some deadline =>
        enter (.refreshDeadline key c.id deadline) fun _ => ()
        publishLoop cfg rows live rest
      | none =>
        match ← look fun m => (m.pods.lookup key, m.claims.lookup key) with
        | (some pod, some current) =>
          if current.id = c.id then notify (expiredPod cfg.platform pod c)
          publishLoop cfg rows live rest
        | _ => publishLoop cfg rows live rest

/-- `publishExpiredLeases`. -/
def publishExpiredLeases (cfg : Config) : Code Unit := do
  let now ← request .now
  let rows ← look (·.candidates now)
  if rows.keys = ∅ then return ()
  if !cfg.lister then
    publishLoop cfg rows ∅ (← request (.rangeOver rows.keys))
  else
    match ← sandboxes with
    | .error _ => return ()
    | .ok listed => publishLoop cfg rows (liveDeadlines listed) (← request (.rangeOver rows.keys))

/-- The verdict of `OrphanScan` on a listed sandbox; `none` when a claim or the queue holds it. -/
def listedVerdict (claimed : Table String Key) (queued : List Claim) (s : SandboxSummary) :
    Option OrphanVerdict :=
  if (claimed.lookup s.id).isSome || queued.any (·.id = s.id) then none
  else if s.claimRef ≠ "" then some .external else some .orphan

/-- `OrphanScan`: the orphans, the stale keys, and the verdicts it records. -/
def orphanScan (cfg : Config) : Code (Option (List String × List Key)) := do
  if !cfg.lister then return none
  match ← sandboxes with
  | .error _ => return none
  | .ok listed =>
    let live := liveDeadlines listed
    let m ← look id
    let order ← request (.rangeOver m.claims.keys)
    let claimed : Table String Key := order.foldl (fun t key =>
      match m.claims.lookup key with
      | some c => t.insert c.id key
      | none => t) ∅
    let orphans := listed.filter fun s => listedVerdict claimed m.releasing s = some .orphan
    let verdicts := listed.foldl (fun (t : Table String OrphanVerdict) s =>
      match listedVerdict claimed m.releasing s with
      | some v => t.insert s.id v
      | none => t) ∅
    let staleIds := (← request (.rangeOver claimed.keys)).filter fun id => (live.lookup id).isNone
    enter (.setVerdicts (staleIds.foldl (fun t id => t.insert id .stale) verdicts)) fun _ => ()
    return some (listedIds orphans, staleIds.filterMap claimed.lookup)

/-! ## `New` -/

/-- `loadState`. -/
def loadState (cfg : Config) : Code (Except ProviderError Unit) := do
  if !cfg.statePath then return .ok ()
  match ← request .readFile with
  | .absent => return .ok ()
  | .failed err => return .error (.readState cfg.path err)
  | .undecodable err => return .error (.decodeState cfg.path err)
  | .decoded st =>
    let now ← request .now
    enter (.load st now) fun _ => ()
    return .ok ()

/-- `New`. -/
def new (cfg : Config) : Code (Except ProviderError Unit) :=
  (loadState cfg).orReturn fun _ => do
  if cfg.lister then
    enter .quarantineLoadedClaims fun _ => ()
    let _ ← verifyClaimsAgainstNode cfg
  match ← persist cfg with
  | .error err => return .error (.notWritable (err.text cfg.platform))
  | .ok () => return .ok ()

/-! ## Calls -/

/-- The calls that reach a provider. -/
inductive Op where
  | new
  | createPod (pod : Pod)
  | updatePod (pod : Pod)
  | deletePod (pod : Pod)
  | claimVerification
  | publishExpiredLeases
  | recheckOwners (now : Time) (base : ℕ)
  | orphanScan
  | notifyPods
  deriving DecidableEq

/-- The Pod a lifecycle call is about. -/
def Op.pod : Op → Option Pod
  | .createPod pod | .updatePod pod | .deletePod pod => some pod
  | _ => none

/-- What a call returns. -/
inductive Outcome where
  | ok
  | err (e : ProviderError)
  | again (b : Bool)
  | scanned (r : Option (List String × List Key))

/-- A nil or non-nil `error`. -/
def Outcome.ofExcept : Except ProviderError Unit → Outcome
  | .ok () => .ok
  | .error e => .err e

/-- **The code of each call.** -/
def code (cfg : Config) : Op → Code Outcome
  | .new => Outcome.ofExcept <$> new cfg
  | .createPod pod => Outcome.ofExcept <$> createPod cfg pod
  | .updatePod pod => Outcome.ofExcept <$> updatePod cfg pod
  | .deletePod pod => Outcome.ofExcept <$> deletePod cfg pod
  | .claimVerification => Outcome.again <$> claimVerificationTick cfg
  | .publishExpiredLeases => do publishExpiredLeases cfg; return .ok
  | .recheckOwners now base => do recheckOwners cfg now base; return .ok
  | .orphanScan => Outcome.scanned <$> orphanScan cfg
  | .notifyPods => do enter .notifyPods fun _ => (); return .ok

end VkSandbox
