import VkSandbox.Provider.Sections
import VkSandbox.Provider.System

/-!
# Provider/Outline — what each thread may count on

The proof outline of the machine: what holds at all times (`Inv`), what a thread must know before
each of its events (`Guard`), and what the other threads may have done meanwhile (`Rely`).

A guard is the whole reason an event is harmless.  The blind assignment of `CreatePod` is guarded by
*no row there*, a removal by *released* or *missing from a listing*, a rename by *covers every
durable credential*; the properties of the provider are then read off the guards, one event at a
time, and no property looks at a program again.
-/

namespace VkSandbox

open Interleave

/-! ## Vocabulary -/

/-- The tables as a state file would list them, tentative rows included. -/
def Memory.all (m : Memory) : StateFile := ⟨m.claims, m.releasing⟩

namespace State

/-- The row of a key. -/
def row (s : State) (k : Key) : Option Claim := s.mem.claims.lookup k

/-- The table the state file decodes to. -/
def content (s : State) : StateFile := s.disk.file.content

/-- Some version of the tables, past or present. -/
def Seen (s : State) (m : Memory) : Prop := ∃ n, s.memAt n = some m

/-- An id this process has neither loaded nor ever had in its tables. -/
def Unseen (s : State) (id : String) : Prop :=
  id ∉ s.ledger.loaded ∧ ∀ {m cr}, s.Seen m → m.all.Holds cr → cr.id ≠ id

/-- The phase in which a thread runs: `New` while booting, the others once up. -/
def Live (s : State) : Tid → Prop
  | .boot => s.phase = .booting
  | _ => s.phase = .up

/-- The Pod a thread's call is about. -/
def Serves (s : State) (t : Tid) (pod : Pod) : Prop :=
  ∃ n, s.ledger.calls t = some (n, .createPod pod) ∨ s.ledger.calls t = some (n, .updatePod pod)

/-- The Pod a thread's `UpdatePod` is about. -/
def Updates (s : State) (t : Tid) (pod : Pod) : Prop :=
  ∃ n, s.ledger.calls t = some (n, .updatePod pod)

/-- The Pod a thread's `DeletePod` is about. -/
def Deletes (s : State) (t : Tid) (pod : Pod) : Prop :=
  ∃ n, s.ledger.calls t = some (n, .deletePod pod)

/-- The call of a key's queue has bound nothing yet, and an `UpdatePod` that goes on to create found
its key tentative and its own Pod there. -/
def Undecided (s : State) (k : Key) : Prop :=
  (s.ledger.progress k).bound = none ∧ ∀ pod, s.Updates (.lifecycle k) pod →
    k ∈ s.mem.tentative ∧ s.mem.podUIDIsCurrent k pod

/-- A key's queue that comes here is in a create or an update. -/
def Creating (s : State) (t : Tid) : Prop := ∀ k, t = .lifecycle k → ∃ pod, s.Serves t pod

/-- What authorises a release: no owner, or an owner read whose verdict is release. -/
def Authorised (s : State) (k : Key) (owner : Option OwnerReference) : Prop :=
  ∀ ref, owner = some ref → ∃ read, (k, ref.name, read) ∈ s.ledger.reads ∧
    (judgeOwner ref read).1 = .release

/-- Every row of the state file is in the tables, or its sandbox is known to be gone; every queued
claim of the file is queued. -/
structure Recovered (s : State) : Prop where
  rows : ∀ {k c}, s.content.claims.lookup k = some c → c.id ∈ s.ledger.missed ∨
    ∃ c', s.row k = some c' ∧ c'.cred = c.cred
  queue : s.content.releasing.map Claim.cred ⊆ s.mem.releasing.map Claim.cred

/-- The file has seen the last change of hands of a key's durable row. -/
def CaughtUp (cfg : Config) (s : State) (k : Key) : Prop :=
  cfg.statePath → s.ledger.writeFailed = false → (s.row k).isSome → k ∉ s.mem.tentative →
    ∃ n, s.disk.instant = some n ∧ (s.ledger.progress k).touched ≤ n

/-- The tables since this process began. -/
def SeenAlive (s : State) (m : Memory) : Prop := ∃ n, s.ledger.born ≤ n ∧ s.memAt n = some m

/-- This process has had the row `c` at `k`. -/
def Showed (s : State) (k : Key) (c : Claim) : Prop :=
  ∃ m, s.SeenAlive m ∧ m.claims.lookup k = some c

end State

/-- A row as a bind leaves it. -/
structure Claim.BoundTo (c : Claim) (pod : Pod) : Prop where
  podUID : c.podUID = pod.uid
  authority : c.authority = some (authorityOf pod)
  owner : c.owner = none

/-! ## Guards -/

/-- Why a `Release` may be sent: the claim never became durable, its Pod is deleted with authority,
or it is queued. -/
inductive ReleaseCause (s : State) : Tid → Credential → Prop where
  | undo {k pod c} : s.Serves (.lifecycle k) pod → k ∈ s.mem.tentative → s.row k = some c →
      ReleaseCause s (.lifecycle k) c.cred
  | delete {k pod m c} : s.Deletes (.lifecycle k) pod → pod.key = k →
      s.memAt (s.ledger.readAt (.lifecycle k)) = some m → m.podUIDIsCurrent k pod →
      m.claims.lookup k = some c → s.Authorised k (controllerOf pod) →
      ReleaseCause s (.lifecycle k) c.cred
  | queued {m c} : s.Seen m → c ∈ m.releasing → ReleaseCause s .ownerRecheck c.cred

/-- What a thread must know before a write-locked section. -/
def SectionGuard (cfg : Config) (s : State) (t : Tid) : Section → Prop
  | .load st now => t = .boot ∧ s.mem = {} ∧ s.disk.file = .table st ∧
      s.ledger.loaded = st.rowIds ∧ cfg.statePath ∧ second ≤ now ∧ s.saveMu ≠ some t ∧
      s.ledger.born = s.instant
  | .quarantineLoadedClaims => t = .boot ∧ cfg.lister ∧ s.mem.tentative = ∅ ∧
      ∀ k c, s.row k = some c → c.id ∈ s.ledger.loaded
  | .settle before live => s.Creating t ∧ ∀ k id, before.lookup k = some id →
      id ∈ s.ledger.loaded ∧ (live.lookup id = none → id ∈ s.ledger.missed) ∧
      ((live.lookup id).isSome → id ∈ s.ledger.vouched)
  | .dropClaim key id => t = .lifecycle key ∧ s.mem.settled key ∧
      (cfg.lister → id ∈ s.ledger.missed) ∧ s.Creating t ∧ s.Undecided key
  | .refreshDeadline key id _ => s.Creating t ∧
      ∀ c, s.row key = some c → c.id = id → s.mem.settled key
  | .adoptExistingClaim key pod => t = .lifecycle key ∧ pod.key = key ∧ s.Serves t pod ∧
      key ∉ s.mem.quarantined ∧ s.Undecided key
  | .withdrawClaim key id => t = .lifecycle key ∧ id ∈ s.ledger.released ∧
      (∀ c, s.row key = some c → c.id = id) ∧ (∀ pod, s.Serves t pod → key ∈ s.mem.tentative ∧
        (s.ledger.progress key).declined = true) ∧
      ∀ pod, s.Deletes t pod → s.mem.podUIDIsCurrent key pod
  | .insertClaim key pod c => t = .lifecycle key ∧ pod.key = key ∧ s.Serves t pod ∧
      s.row key = none ∧ ∃ res now, (s.ledger.progress key).inHand = some res ∧
        c = Claim.ofResult res pod now ∧ second ≤ now
  | .clearTentative key => t = .lifecycle key ∧ s.saveMu = some t ∧ key ∈ s.mem.tentative ∧
      ∃ c, s.row key = some c ∧ c.id ∉ s.ledger.sent ∧
        (cfg.statePath → s.content.claims.lookup key = some c.marshal) ∧
        (s.ledger.progress key).declined = true
  | .updatePod key pod => t = .lifecycle key ∧ pod.key = key ∧ s.Updates t pod ∧
      s.mem.podUIDIsCurrent key pod ∧ (s.ledger.progress key).declined = false
  | .forgetPod key => t = .lifecycle key ∧ s.row key = none
  | .preserveClaim key id owner => t = .lifecycle key ∧ ∃ pod, s.Deletes t pod ∧ pod.key = key ∧
      owner = controllerOf pod ∧ owner.isSome ∧ s.mem.podUIDIsCurrent key pod ∧
      (∀ c, s.row key = some c → c.id = id) ∧ s.saveMu ≠ some t
  | .withdrawForRelease key c => t = .ownerRecheck ∧ s.Authorised key c.owner ∧
      (∃ m, s.SeenAlive m ∧ m.preserved.lookup key = some c) ∧
      ∀ cur, s.row key = some cur → cur.id = c.id → c.Same cur ∧ s.mem.settled key
  | .dequeue id => t = .ownerRecheck ∧ id ∈ s.ledger.released
  | .pruneRechecks _ | .setRecheck _ _ => t = .ownerRecheck
  | _ => True

/-- The Running notification of a row that was settled, and is still there or known to be gone. -/
structure RunningGuard (cfg : Config) (s : State) (t : Tid) (k : Key) (id : String) : Prop where
  thread : t = .lifecycle k
  seen : ∃ m c, s.Seen m ∧ m.claimFor k = some c ∧ c.id = id
  held : (∃ c, s.mem.claimFor k = some c ∧ c.id = id) ∨
    s.row k = none ∧ id ∈ s.ledger.missed ∧ id ∈ s.ledger.loaded
  vouched : cfg.lister → id ∈ s.ledger.loaded → id ∈ s.ledger.vouched

/-- What a rename puts in place: a snapshot its thread took since it holds the save lock, which
covers every durable credential. -/
structure RenameGuard (s : State) (t : Tid) (d : Draft) : Prop where
  tmp : s.disk.tmp = some d
  writer : d.writer = t
  since : s.ledger.savingSince ≤ d.instant
  later : ∀ n, s.disk.instant = some n → n ≤ d.instant
  covers : ∀ cr, (s.mem.snapshot none).Holds cr → d.st.Holds cr
  keys : ∀ {k c}, s.row k = some c → k ∉ s.mem.tentative → ∃ c', d.st.claims.lookup k = some c'
  snapshot : ∃ m committing, s.memAt d.instant = some m ∧ d.st = (m.snapshot committing).marshal ∧
    ∀ k, committing = some k → t = .lifecycle k ∧
      ∀ c, m.claims.lookup k = some c → c.id ∉ s.ledger.sent

/-- What a thread must know before a request, given the reply. -/
def AskGuard (cfg : Config) (s : State) (t : Tid) : (e : Request) → Reply e → Prop
  | .sendClaim spec, _ => t = .lifecycle spec.claimRef ∧ s.row spec.claimRef = none ∧
      (s.ledger.progress spec.claimRef).declined = true
  | .claim spec, _ => t = .lifecycle spec.claimRef ∧ s.row spec.claimRef = none ∧
      (s.ledger.progress spec.claimRef).inHand = none ∧ (s.ledger.calls t).isSome
  | .sendRelease id token, _ => ReleaseCause s t ⟨id, token⟩ ∧ s.saveMu ≠ some t
  | .release id _, _ => id ∈ s.ledger.sent
  | .notify pod, _ =>
      (cfg.lister → ∀ c, s.row pod.key = some c → c.id ∈ s.ledger.loaded →
        c.id ∈ s.ledger.vouched) ∧
      (pod.status.phase = .running →
        ∃ id, runningEntry pod = some (pod.key, id) ∧ RunningGuard cfg s t pod.key id) ∧
      ∃ c p, s.Showed pod.key c ∧ (pod = runningPod p c ∧ t = .lifecycle pod.key ∨
        pod = expiredPod cfg.platform p c ∧ ∃ n, t = .leaseWatch n)
  | .lockSave, _ => (s.ledger.calls t).isSome
  | .unlockSave, _ => ∀ k c, t = .lifecycle k → k ∈ s.mem.tentative → s.row k = some c →
      c.id ∉ s.ledger.filed
  | .mkdirAll, _ => s.saveMu = some t
  | .writeFile _, _ => s.saveMu = some t
  | .rename, _ => s.saveMu = some t ∧ (t = .boot → s.Recovered) ∧ ∃ d, RenameGuard s t d
  | .readFile, _ => t = .boot ∧ s.mem = {}
  | _, _ => True

/-- What a `CreatePod` that returns nil leaves: its Pod bound to a sandbox, and tracked. -/
structure CreatedGuard (cfg : Config) (s : State) (k : Key) (pod : Pod) (id : String) : Prop where
  bound : (s.ledger.progress k).bound = some id
  tracked : ∃ p, s.mem.pods.lookup k = some p ∧ p.uid = pod.uid
  settled : s.mem.settled k
  row : (∃ c, s.row k = some c ∧ c.id = id ∧ c.BoundTo pod) ∨
    s.row k = none ∧ id ∈ s.ledger.missed ∧ id ∈ s.ledger.loaded
  saved : cfg.statePath → s.ledger.writeFailed = false →
    ∃ n, s.disk.instant = some n ∧ (s.ledger.progress k).touched ≤ n

/-- What an `UpdatePod` that returns nil has done: nothing, recorded its Pod, or created it. -/
def UpdatedGuard (cfg : Config) (s : State) (k : Key) (pod : Pod) : Prop :=
  s.mem.podUIDIsCurrent k pod = false ∨
  (s.mem.pods.lookup k = some pod ∧ k ∉ s.mem.tentative ∧ (s.ledger.progress k).declined = false ∧
    (s.ledger.progress k).bound = none) ∨
  ∃ id, CreatedGuard cfg s k pod id

/-- What a `CreatePod` that returns an error leaves: it has decided nothing, or found nothing to
adopt and nothing durable is there. -/
def FailedGuard (s : State) (k : Key) (pod : Pod) : Prop :=
  (ann pod annRuntime runtimeSandboxd ≠ runtimeSandboxd ∨ s.ledger.listFailed = true) ∧
    s.Undecided k ∨
  (s.ledger.progress k).declined = true ∧ (s.row k = none ∨ k ∈ s.mem.tentative)

/-- What a call must leave behind. -/
def ReturnGuard (cfg : Config) (s : State) : Tid → Op → Outcome → Prop
  | .boot, _, .ok => (cfg.statePath → s.Recovered ∧ s.disk.file ≠ .garbage ∧
        ∃ n, s.disk.instant = some n ∧ s.ledger.born ≤ n ∧ ∀ k, (s.ledger.progress k).touched ≤ n) ∧
      (cfg.lister → ∀ k c, s.row k = some c → s.mem.settled k → c.id ∈ s.ledger.vouched)
  | .lifecycle k, op, r => (s.ledger.progress k).inHand = none ∧
      ((s.ledger.progress k).dirty = true → s.CaughtUp cfg k) ∧
      match op, r with
      | .createPod pod, .ok => pod.key = k ∧ ∃ id, CreatedGuard cfg s k pod id
      | .createPod pod, .err _ => pod.key = k ∧ FailedGuard s k pod
      | .updatePod pod, .ok => pod.key = k ∧ UpdatedGuard cfg s k pod
      | .updatePod pod, .err _ => pod.key = k ∧ FailedGuard s k pod
      | _, _ => True
  | _, _, _ => True

/-- **What a thread must know before each event.** -/
def Guard (cfg : Config) : Ev → State → Prop
  | .started _ _, _ => True
  | .read t, s => s.Live t
  | .locked t a, s => s.Live t ∧ SectionGuard cfg s t a
  | .asked t e r, s => s.Live t ∧ AskGuard cfg s t e r
  | .finished t op r, s => s.Live t ∧ s.saveMu ≠ some t ∧
      (∃ n, s.ledger.calls t = some (n, op)) ∧ ReturnGuard cfg s t op r
  | .crashed, _ => True

/-! ## The invariant -/

/-- **What holds at all times.** -/
structure Inv (cfg : Config) (s : State) : Prop where
  down : s.phase = .down → s.mem = {}
  booting : s.phase ≠ .up → s.mem.tentative = ∅
  /-- A tentative row is this process's own. -/
  tentative : ∀ {k}, k ∈ s.mem.tentative → ∃ c, s.row k = some c ∧ c.id ∉ s.ledger.loaded
  /-- A quarantined row is a loaded one. -/
  quarantined : ∀ {k}, k ∈ s.mem.quarantined → ∃ c, s.row k = some c ∧ c.id ∈ s.ledger.loaded
  lister : ∀ {k}, k ∈ s.mem.quarantined → cfg.lister
  /-- A loaded row is settled by a listing that had it. -/
  vouched : cfg.lister → s.phase = .up → ∀ {k c}, s.row k = some c → s.mem.settled k →
    c.id ∈ s.ledger.loaded → c.id ∈ s.ledger.vouched
  podKey : ∀ {k p}, s.mem.pods.lookup k = some p → p.key = k
  issued : ∀ {m cr}, s.Seen m → m.all.Holds cr → cr ∈ s.ledger.issued
  fileIssued : ∀ {cr}, s.content.Holds cr → cr ∈ s.ledger.issued
  loadedIssued : s.ledger.loaded ⊆ s.ledger.issuedIds
  sentIssued : s.ledger.sent ⊆ s.ledger.issuedIds
  listingIssued : ∀ t, s.ledger.listing t ⊆ s.ledger.issuedIds
  lackedIssued : s.ledger.lacked ⊆ s.ledger.issuedIds
  missed : s.ledger.missed ⊆ s.ledger.lacked
  filedIssued : s.ledger.filed ⊆ s.ledger.issuedIds
  filed : s.content.ids ⊆ s.ledger.filed
  releasedSent : s.ledger.released ⊆ s.ledger.sent
  /-- An answer not yet recorded is nowhere else. -/
  hand : ∀ {k res}, (s.ledger.progress k).inHand = some res → s.phase = .up ∧
    ⟨res.id, res.token⟩ ∈ s.ledger.issued ∧ res.id ∉ s.ledger.sent ∧ res.id ∉ s.ledger.filed ∧
    s.Unseen res.id
  handInj : ∀ {k k' res res'}, (s.ledger.progress k).inHand = some res →
    (s.ledger.progress k').inHand = some res' → res.id = res'.id → k = k'
  /-- The id of a tentative row is nowhere but in its own tentative row, now or before. -/
  tentativeOnly : ∀ {k c m}, k ∈ s.mem.tentative → s.row k = some c → s.Seen m →
    (∀ {k' c'}, m.claims.lookup k' = some c' → c'.id = c.id → k' = k ∧ k ∈ m.tentative) ∧
    ∀ c' ∈ m.releasing, c'.id ≠ c.id
  /-- It reaches the file only while its own commit holds the save lock. -/
  tentativeFiled : ∀ {k c}, k ∈ s.mem.tentative → s.row k = some c → c.id ∈ s.ledger.filed →
    s.saveMu = some (.lifecycle k)
  diskInstant : ∀ {n}, s.disk.instant = some n → n ≤ s.instant
  touched : ∀ k, (s.ledger.progress k).touched ≤ s.instant
  born : s.ledger.born ≤ s.instant
  idle : ∀ {k}, (s.ledger.calls (.lifecycle k)) = none → (s.ledger.progress k).inHand = none
  lockOwner : ∀ {t}, s.saveMu = some t → (s.ledger.calls t).isSome
  /-- The queues run while the process is up. -/
  up : ∀ {k}, (s.ledger.calls (.lifecycle k)).isSome → s.phase = .up

/-! ## Interference -/

/-- **What every guarded event leaves as it was**, whoever performs it: the ledger only grows, the
past stays, and a row is the edit of a row or carries an id nobody had. -/
structure Evolves (s s' : State) : Prop where
  phase : s'.phase = s.phase
  loaded : s'.ledger.loaded = s.ledger.loaded
  issued : s.ledger.issued ⊆ s'.ledger.issued
  sent : s.ledger.sent ⊆ s'.ledger.sent
  released : s.ledger.released ⊆ s'.ledger.released
  missed : s.ledger.missed ⊆ s'.ledger.missed
  vouched : s.ledger.vouched ⊆ s'.ledger.vouched
  reads : s.ledger.reads ⊆ s'.ledger.reads
  writeFailed : s'.ledger.writeFailed = false → s.ledger.writeFailed = false
  listFailed : s.ledger.listFailed = true → s'.ledger.listFailed = true
  instant : s.instant ≤ s'.instant
  born : s'.ledger.born = s.ledger.born
  memAt : ∀ {n m}, s.memAt n = some m → s'.memAt n = some m
  disk : ∀ {n}, s.disk.instant = some n → ∃ n', s'.disk.instant = some n' ∧ n ≤ n'
  rows : ∀ {k c'}, s'.row k = some c' → (∃ c, s.row k = some c ∧ c.Same c' ∧
    (k ∈ s'.mem.tentative → k ∈ s.mem.tentative) ∧
    (k ∈ s'.mem.quarantined → k ∈ s.mem.quarantined)) ∨ s.Unseen c'.id

/-- What the others leave to the queue of key `k`: its Pod, its markers, its progress, and its row
but for a new deadline, unless a listing or the owner re-check ended it. -/
structure Own (k : Key) (s s' : State) : Prop where
  pods : s'.mem.pods.lookup k = s.mem.pods.lookup k
  tentative : k ∈ s'.mem.tentative ↔ k ∈ s.mem.tentative
  quarantined : k ∈ s'.mem.quarantined → k ∈ s.mem.quarantined
  empty : s.row k = none → s'.row k = none
  kept : ∀ {c}, s.row k = some c → (∃ d, s'.row k = some { c with deadline := d }) ∨
    s'.row k = none ∧
      (c.id ∈ s'.ledger.missed ∧ c.id ∈ s'.ledger.loaded ∨ s.mem.pods.lookup k = none)
  fixed : k ∈ s.mem.tentative → s'.row k = s.row k
  progress : s'.ledger.progress k = s.ledger.progress k

/-- Nothing has become durable: no credential, and no key's row. -/
structure Settling (m m' : Memory) : Prop where
  holds : ∀ {cr}, (m'.snapshot none).Holds cr → (m.snapshot none).Holds cr
  keys : ∀ {k c'}, m'.claims.lookup k = some c' → k ∉ m'.tentative →
    ∃ c, m.claims.lookup k = some c ∧ k ∉ m.tentative

/-- What the others leave to thread `t`: its place in its call, and the disk while it holds the save
lock. -/
structure Private (t : Tid) (s s' : State) : Prop where
  calls : s'.ledger.calls t = s.ledger.calls t
  readAt : s'.ledger.readAt t = s.ledger.readAt t
  listing : s'.ledger.listing t = s.ledger.listing t
  free : s.saveMu ≠ some t → s'.saveMu ≠ some t
  held : s.saveMu = some t → s'.saveMu = some t ∧ s'.disk = s.disk ∧
    s'.ledger.filed = s.ledger.filed ∧ s'.ledger.savingSince = s.ledger.savingSince ∧
    Settling s.mem s'.mem

/-- Nobody else releases the tentative row of key `k`. -/
def Unsent (k : Key) (s s' : State) : Prop :=
  ∀ c, k ∈ s.mem.tentative → s.row k = some c → c.id ∉ s.ledger.sent → c.id ∉ s'.ledger.sent

/-- What the other threads have done while the running thread `t` waited. -/
structure Calm (t : Tid) (s s' : State) : Prop where
  evolves : Evolves s s'
  mine : Private t s s'
  own : ∀ k, t = .lifecycle k → Own k s s'
  unsent : ∀ k, t = .lifecycle k → Unsent k s s'
  still : t = .boot → s' = s

/-- **What the other threads may do while `t` waits.** -/
def Rely (t : Tid) (s s' : State) : Prop := s.Live t → Calm t s s'

namespace Evolves

theorem refl (s : State) : Evolves s s where
  phase := rfl
  loaded := rfl
  issued := Finset.Subset.refl _
  sent := Finset.Subset.refl _
  released := Finset.Subset.refl _
  missed := Finset.Subset.refl _
  vouched := Finset.Subset.refl _
  reads := List.Subset.refl _
  writeFailed := id
  listFailed := id
  instant := le_rfl
  born := rfl
  memAt := id
  disk := fun h => ⟨_, h, le_rfl⟩
  rows := fun h => .inl ⟨_, h, .refl _, id, id⟩

theorem issuedIds {s s' : State} (h : Evolves s s') : s.ledger.issuedIds ⊆ s'.ledger.issuedIds :=
  Finset.image_subset_image h.issued

theorem seen {s s' : State} (h : Evolves s s') {m : Memory} (hm : s.Seen m) : s'.Seen m := by
  obtain ⟨n, hn⟩ := hm
  exact ⟨n, h.memAt hn⟩

theorem seenAlive {s s' : State} (h : Evolves s s') {m : Memory} (hm : s.SeenAlive m) :
    s'.SeenAlive m := by
  obtain ⟨n, hb, hn⟩ := hm
  exact ⟨n, by rw [h.born]; exact hb, h.memAt hn⟩

theorem showed {s s' : State} (h : Evolves s s') {k : Key} {c : Claim} (hc : s.Showed k c) :
    s'.Showed k c := by
  obtain ⟨m, hm, hk⟩ := hc
  exact ⟨m, h.seenAlive hm, hk⟩

theorem unseen {s s' : State} (h : Evolves s s') {id : String} (hu : s'.Unseen id) : s.Unseen id :=
  ⟨h.loaded ▸ hu.1, fun hm => hu.2 (h.seen hm)⟩

theorem trans {s₁ s₂ s₃ : State} (h : Evolves s₁ s₂) (h' : Evolves s₂ s₃) : Evolves s₁ s₃ where
  phase := h'.phase.trans h.phase
  loaded := h'.loaded.trans h.loaded
  issued := h.issued.trans h'.issued
  sent := h.sent.trans h'.sent
  released := h.released.trans h'.released
  missed := h.missed.trans h'.missed
  vouched := h.vouched.trans h'.vouched
  reads := List.Subset.trans h.reads h'.reads
  writeFailed := h.writeFailed ∘ h'.writeFailed
  listFailed := h'.listFailed ∘ h.listFailed
  instant := h.instant.trans h'.instant
  born := h'.born.trans h.born
  memAt := h'.memAt ∘ h.memAt
  disk := fun hn => by
    obtain ⟨n', h₁, hle⟩ := h.disk hn
    obtain ⟨n'', h₂, hle'⟩ := h'.disk h₁
    exact ⟨n'', h₂, hle.trans hle'⟩
  rows := fun hc => by
    obtain ⟨c₂, h₂, hs, ht, hq⟩ | hnew := h'.rows hc
    · obtain ⟨c₁, h₁, hs', ht', hq'⟩ | hnew := h.rows h₂
      · exact .inl ⟨c₁, h₁, hs'.trans hs, ht' ∘ ht, hq' ∘ hq⟩
      · exact .inr (hs.id ▸ hnew)
    · exact .inr (h.unseen hnew)

theorem live {s s' : State} (h : Evolves s s') {t : Tid} (hl : s.Live t) : s'.Live t := by
  cases t <;> exact h.phase.trans hl

theorem authorised {s s' : State} (h : Evolves s s') {k : Key} {owner : Option OwnerReference}
    (ha : s.Authorised k owner) : s'.Authorised k owner := by
  intro ref hr
  obtain ⟨read, hm, hv⟩ := ha ref hr
  exact ⟨read, h.reads hm, hv⟩

end Evolves

namespace Own

variable {k : Key} {s s₁ s₂ s₃ : State}

theorem refl (k : Key) (s : State) : Own k s s where
  pods := rfl
  tentative := Iff.rfl
  quarantined := id
  empty := id
  kept := fun {c} h => .inl ⟨c.deadline, h⟩
  fixed := fun _ => rfl
  progress := rfl

theorem trans (h : Own k s₁ s₂) (h' : Own k s₂ s₃) (he : Evolves s₂ s₃) : Own k s₁ s₃ where
  pods := h'.pods.trans h.pods
  tentative := h'.tentative.trans h.tentative
  quarantined := h.quarantined ∘ h'.quarantined
  empty := h'.empty ∘ h.empty
  kept := fun {c} hc => by
    obtain ⟨d, h₂⟩ | ⟨h₂, hwhy⟩ := h.kept hc
    · obtain ⟨d', h₃⟩ | ⟨h₃, hwhy⟩ := h'.kept h₂
      · exact .inl ⟨d', h₃⟩
      · exact .inr ⟨h₃, hwhy.imp_right fun hp => h.pods.symm.trans hp⟩
    · refine .inr ⟨h'.empty h₂, hwhy.imp_left fun hl => ⟨he.missed hl.1, ?_⟩⟩
      rw [he.loaded]
      exact hl.2
  fixed := fun ht => (h'.fixed (h.tentative.mpr ht)).trans (h.fixed ht)
  progress := h'.progress.trans h.progress

end Own

namespace Settling

theorem refl (m : Memory) : Settling m m := ⟨id, fun hc ht => ⟨_, hc, ht⟩⟩

theorem trans {m₁ m₂ m₃ : Memory} (h : Settling m₁ m₂) (h' : Settling m₂ m₃) :
    Settling m₁ m₃ where
  holds := h.holds ∘ h'.holds
  keys := fun hc ht => by
    obtain ⟨c₂, h₂, ht₂⟩ := h'.keys hc ht
    exact h.keys h₂ ht₂

end Settling

namespace Private

variable {t : Tid} {s₁ s₂ s₃ : State}

theorem refl (t : Tid) (s : State) : Private t s s where
  calls := rfl
  readAt := rfl
  listing := rfl
  free := id
  held := fun h => ⟨h, rfl, rfl, rfl, .refl s.mem⟩

theorem trans (h : Private t s₁ s₂) (h' : Private t s₂ s₃) : Private t s₁ s₃ where
  calls := h'.calls.trans h.calls
  readAt := h'.readAt.trans h.readAt
  listing := h'.listing.trans h.listing
  free := h'.free ∘ h.free
  held := fun hm => by
    obtain ⟨hm₂, hd, hf, hv, hc⟩ := h.held hm
    obtain ⟨hm₃, hd', hf', hv', hc'⟩ := h'.held hm₂
    exact ⟨hm₃, hd'.trans hd, hf'.trans hf, hv'.trans hv, hc.trans hc'⟩

end Private

namespace Calm

variable {t : Tid} {s₁ s₂ s₃ : State}

theorem refl (t : Tid) (s : State) : Calm t s s where
  evolves := .refl s
  mine := .refl t s
  own := fun k _ => .refl k s
  unsent := fun _ _ _ _ _ => id
  still := fun _ => rfl

theorem trans (h : Calm t s₁ s₂) (h' : Calm t s₂ s₃) : Calm t s₁ s₃ where
  evolves := h.evolves.trans h'.evolves
  mine := h.mine.trans h'.mine
  own := fun k hk => (h.own k hk).trans (h'.own k hk) h'.evolves
  unsent := fun k hk c ht hc hu => h'.unsent k hk c ((h.own k hk).tentative.mpr ht)
    (((h.own k hk).fixed ht).trans hc) (h.unsent k hk c ht hc hu)
  still := fun hk => (h'.still hk).trans (h.still hk)

end Calm

/-- **The proof outline of the machine.** -/
def outline (cfg : Config) : Outline (machine cfg) where
  Inv := Inv cfg
  Rely := Rely
  Guard := Guard cfg
  rely_refl := fun t s _ => .refl t s
  rely_trans := fun h h' hl => (h hl).trans (h' ((h hl).evolves.live hl))

end VkSandbox
