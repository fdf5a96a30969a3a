import VkSandbox.Provider.Types
import Mathlib.Data.Finset.Filter
import Mathlib.Data.Finset.Insert

/-!
# Provider/Memory — the provider's tables and the sections that change them

The maps of `Provider` and, one definition each, the bodies its methods run under `mu`.  A body is a
function of the tables it finds; `Section` names them all, so that a run can say which one it went
through, and `Section.run` is what it does.

The loops over a map inside a section touch one key per iteration, so each is a `Table.pick`.
-/

namespace VkSandbox

/-- `ownerRecheck`: when a preserved claim's owner is next asked about, and the delay that led
there. -/
structure OwnerRecheck where
  due : Time
  delay : ℕ
  deriving DecidableEq

/-- The verdicts of the orphan scan. -/
inductive OrphanVerdict where
  | external | orphan | stale
  deriving DecidableEq

/-- The tables of `Provider`.  `notifier` says whether a callback is registered; `orphanVerdicts`
and `ownerRechecks` belong to one goroutine each. -/
structure Memory where
  pods : Table Key Pod := ∅
  claims : Table Key Claim := ∅
  notifier : Bool := false
  tentative : Finset Key := ∅
  quarantined : Finset Key := ∅
  releasing : List Claim := []
  orphanVerdicts : Table String OrphanVerdict := ∅
  ownerRechecks : Table Key OwnerRecheck := ∅

namespace Memory

/-! ## What a read-locked section looks at -/

/-- `settled`: neither tentative nor quarantined. -/
def settled (m : Memory) (key : Key) : Bool := key ∉ m.tentative ∧ key ∉ m.quarantined

/-- `claimFor`: the settled claim of a key. -/
def claimFor (m : Memory) (key : Key) : Option Claim :=
  if m.settled key then m.claims.lookup key else none

/-- `podUIDIsCurrent`: nothing tracked, or this very generation. -/
def podUIDIsCurrent (m : Memory) (key : Key) (pod : Pod) : Bool :=
  match m.pods.lookup key with
  | none => true
  | some cur => cur.uid = pod.uid

/-- The snapshot `VerifyClaimsAgainstNode` judges: the quarantined rows with their ids. -/
def unverified (m : Memory) : Table Key String :=
  m.claims.pick fun k c => if k ∈ m.quarantined then some c.id else none

/-- The rows `recheckOwners` asks about: preserved, pod-less and settled. -/
def preserved (m : Memory) : Table Key Claim :=
  m.claims.pick fun k c =>
    if c.owner.isSome && (m.pods.lookup k).isNone && m.settled k then some c else none

/-- The rows `publishExpiredLeases` asks about: expired, settled and tracked. -/
def candidates (m : Memory) (now : Time) : Table Key Claim :=
  m.claims.pick fun k c =>
    if !c.expired now || !m.settled k || (m.pods.lookup k).isNone then none else some c

/-- The table `write` puts on disk: the durable rows, and the row of the key being committed. -/
def snapshot (m : Memory) (committing : Option Key) : StateFile where
  claims := m.claims.pick fun k c => if k ∉ m.tentative ∨ committing = some k then some c else none
  releasing := m.releasing

/-! ## What a write-locked section does -/

/-- `loadState`, once the file is decoded: a row without a `ClaimedAt` gets the load time. -/
def load (st : StateFile) (now : Time) (m : Memory) : Memory :=
  { m with
    releasing := st.releasing
    claims := st.claims.pick fun _ c =>
      some (if c.claimedAt = 0 then { c with claimedAt := now } else c) }

/-- `quarantineLoadedClaims`. -/
def quarantineLoadedClaims (m : Memory) : Memory :=
  { m with quarantined := m.quarantined ∪ m.claims.keys }

/-- A row the listing has: an older table has no deadline, the listing carries the lease end. -/
def settleRow (live : Table String Time) (c : Claim) : Option Claim :=
  (live.lookup c.id).map fun d => if c.deadline = 0 ∧ d ≠ 0 then { c with deadline := d } else c

/-- The row still holds the id the snapshot had for it, so the listing may judge it. -/
def judged (m : Memory) (before : Table Key String) (key : Key) : Bool :=
  match m.claims.lookup key with
  | none => false
  | some c => before.lookup key = some c.id

/-- The last section of `VerifyClaimsAgainstNode`: listed rows leave quarantine, the others leave
the table. -/
def settle (before : Table Key String) (live : Table String Time) (m : Memory) : Memory :=
  { m with
    claims := m.claims.pick fun k c =>
      if before.lookup k = some c.id then settleRow live c else some c
    quarantined := m.quarantined.filter fun k => m.judged before k = false }

/-- `dropClaim`, ID-guarded. -/
def dropClaim (key id : String) (m : Memory) : Memory :=
  match m.claims.lookup key with
  | some c => if c.id = id then { m with claims := m.claims.erase key } else m
  | none => m

/-- `if c, ok := p.claims[key]; ok && c.ID == id { p.claims[key] = f(c) }`. -/
def editRow (key id : String) (f : Claim → Claim) (claims : Table Key Claim) : Table Key Claim :=
  match claims.lookup key with
  | some c => if c.id = id then claims.insert key (f c) else claims
  | none => claims

/-- `refreshDeadline`, ID-guarded. -/
def refreshDeadline (key id : String) (deadline : Time) (m : Memory) : Memory :=
  { m with claims := editRow key id (fun c => { c with deadline := deadline }) m.claims }

/-- `adoptExistingClaim`: rebind the key's settled claim, or queue it for release when it answers to
someone else. -/
def adoptExistingClaim (key : Key) (pod : Pod) (m : Memory) : Memory :=
  match m.claims.lookup key with
  | none => m
  | some c =>
    if !m.settled key then m
    else if !c.adoptableBy pod then
      { m with claims := m.claims.erase key, releasing := m.releasing ++ [c] }
    else
      { m with claims := m.claims.insert key (c.rebind pod), pods := m.pods.insert key pod }

/-- The claim `adoptExistingClaim` returns. -/
def adopted (key : Key) (pod : Pod) (m : Memory) : Option Claim :=
  match m.claims.lookup key with
  | none => none
  | some c => if m.settled key && c.adoptableBy pod then some (c.rebind pod) else none

/-- `withdrawClaim`. -/
def withdrawClaim (key id : String) (m : Memory) : Memory :=
  let m' := match m.claims.lookup key with
    | some c =>
      if c.id = id then { m with claims := m.claims.erase key, pods := m.pods.erase key } else m
    | none => m
  { m' with tentative := m'.tentative.erase key, quarantined := m'.quarantined.erase key }

/-- The section of `CreatePod` that records a fresh claim. -/
def insertClaim (key : Key) (pod : Pod) (c : Claim) (m : Memory) : Memory :=
  { m with
    claims := m.claims.insert key c
    pods := m.pods.insert key (podWithClaim pod c.id)
    tentative := insert key m.tentative }

/-- `commitClaim`'s last section: the rename has landed. -/
def clearTentative (key : Key) (m : Memory) : Memory :=
  { m with tentative := m.tentative.erase key }

/-- The section of `UpdatePod`: record the Pod unless its claim is tentative. -/
def updatePod (key : Key) (pod : Pod) (m : Memory) : Memory :=
  if key ∈ m.tentative then m else { m with pods := m.pods.insert key pod }

/-- `forgetPod`. -/
def forgetPod (key : Key) (m : Memory) : Memory := { m with pods := m.pods.erase key }

/-- The section of `preserveClaim`. -/
def preserveClaim (key id : String) (owner : Option OwnerReference) (m : Memory) : Memory :=
  { m with
    pods := m.pods.erase key
    claims := editRow key id (fun c => { c with owner := owner }) m.claims }

/-- Whether `withdrawForRelease` finds the claim still its key's, and no Pod there. -/
def withdrawable (key : Key) (c : Claim) (m : Memory) : Bool :=
  match m.claims.lookup key with
  | some cur => cur.id = c.id && (m.pods.lookup key).isNone
  | none => false

/-- `withdrawForRelease`. -/
def withdrawForRelease (key : Key) (c : Claim) (m : Memory) : Memory :=
  if m.withdrawable key c then
    { m with claims := m.claims.erase key, releasing := m.releasing ++ [c] }
  else m

/-- The section of `drainReleases` after a release that succeeded. -/
def dequeue (id : String) (m : Memory) : Memory :=
  { m with releasing := m.releasing.filter (·.id ≠ id) }

end Memory

/-- **The write-locked sections**, under the names of the methods they are the body of.  The last
four touch only what one goroutine owns, or the callback. -/
inductive Section where
  | load (st : StateFile) (now : Time)
  | quarantineLoadedClaims
  | settle (before : Table Key String) (live : Table String Time)
  | dropClaim (key id : String)
  | refreshDeadline (key id : String) (deadline : Time)
  | adoptExistingClaim (key : Key) (pod : Pod)
  | withdrawClaim (key id : String)
  | insertClaim (key : Key) (pod : Pod) (c : Claim)
  | clearTentative (key : Key)
  | updatePod (key : Key) (pod : Pod)
  | forgetPod (key : Key)
  | preserveClaim (key id : String) (owner : Option OwnerReference)
  | withdrawForRelease (key : Key) (c : Claim)
  | dequeue (id : String)
  | notifyPods
  | pruneRechecks (keep : Finset Key)
  | setRecheck (key : Key) (r : Option OwnerRecheck)
  | setVerdicts (verdicts : Table String OrphanVerdict)

/-- What a section does to the tables. -/
def Section.run : Section → Memory → Memory
  | load st now => Memory.load st now
  | quarantineLoadedClaims => Memory.quarantineLoadedClaims
  | settle before live => Memory.settle before live
  | dropClaim key id => Memory.dropClaim key id
  | refreshDeadline key id deadline => Memory.refreshDeadline key id deadline
  | adoptExistingClaim key pod => Memory.adoptExistingClaim key pod
  | withdrawClaim key id => Memory.withdrawClaim key id
  | insertClaim key pod c => Memory.insertClaim key pod c
  | clearTentative key => Memory.clearTentative key
  | updatePod key pod => Memory.updatePod key pod
  | forgetPod key => Memory.forgetPod key
  | preserveClaim key id owner => Memory.preserveClaim key id owner
  | withdrawForRelease key c => Memory.withdrawForRelease key c
  | dequeue id => Memory.dequeue id
  | notifyPods => fun m => { m with notifier := true }
  | pruneRechecks keep => fun m =>
    { m with ownerRechecks := m.ownerRechecks.pick fun k r => if k ∈ keep then some r else none }
  | setRecheck key (some r) => fun m => { m with ownerRechecks := m.ownerRechecks.insert key r }
  | setRecheck key none => fun m => { m with ownerRechecks := m.ownerRechecks.erase key }
  | setVerdicts verdicts => fun m => { m with orphanVerdicts := verdicts }

end VkSandbox
