import VkSandbox.Machinery.RelyGuarantee
import VkSandbox.Provider.Programs

/-!
# Provider/System — the process, its disk and its node

The goroutines `main.go` starts, the state they share, and what each event does to it.  Beside the
tables the state carries the disk, the save lock, and two kinds of history that the code never
reads: the **ledger** of what was exchanged with sandboxd, the API server and the caller, and the
**past**, every version of the tables there has been.

    down ──started New──▸ booting ──New returns nil──▸ up
      ▴                      │                          │
      └────── New fails, or a crash ───────────────────┘

Calls for one key come from one queue, so they are one thread; a crash ends every call and forgets
the tables, and leaves disk and ledger alone.
-/

namespace VkSandbox

open Interleave

/-! ## Threads -/

/-- The goroutines: `New` itself, virtual-kubelet's queue for each key, the loops, and the
controller that registers the notifier. -/
inductive Tid where
  | boot
  | lifecycle (key : Key)
  | verification (n : ℕ)
  | leaseWatch (n : ℕ)
  | ownerRecheck
  | orphanScan
  | controller
  deriving DecidableEq

/-- The events of this machine. -/
abbrev Ev := Event Section Request Reply Tid Op Outcome

/-! ## The disk -/

/-- What the state path holds. -/
inductive File where
  | absent
  | garbage
  | table (st : StateFile)
  deriving DecidableEq

/-- The table a file decodes to. -/
def File.content : File → StateFile
  | .table st => st
  | _ => ⟨∅, []⟩

/-- What `WriteFile` left at the temporary path: the table, the instant whose tables it is a
snapshot of, and the thread that wrote it. -/
structure Draft where
  st : StateFile
  instant : ℕ
  writer : Tid

/-- The state file and its temporary.  `instant` and `writer` describe the present content, once
this machine has written it. -/
structure Disk where
  file : File
  instant : Option ℕ := none
  writer : Option Tid := none
  tmp : Option Draft := none

/-! ## The ledger -/

/-- What the queue of one key has come to: the answer its `CreatePod` holds and has not recorded,
the sandbox it bound, whether it found nothing to adopt, whether the row has changed hands in this
call, and the instant from which the row is as its last change of hands left it. -/
structure Progress where
  inHand : Option ClaimResult := none
  bound : Option String := none
  declined : Bool := false
  dirty : Bool := false
  touched : ℕ := 0

/-- One binding of a sandbox to a Pod, by an adoption or by a fresh claim: the call it is part of,
and the instant from which the tables show it. -/
structure Binding where
  key : Key
  id : String
  pod : Pod
  call : ℕ
  instant : ℕ

/-- The history of the exchanges.  Nothing here is read by the code. -/
structure Ledger where
  /-- Credentials sandboxd has issued, those of the first state file included. -/
  issued : Finset Credential := ∅
  /-- The key each sandbox was claimed for. -/
  claimedFor : Finset (String × Key) := ∅
  /-- Ids a `Release` was sent for. -/
  sent : Finset String := ∅
  /-- Ids a `Release` was sent for while their row was tentative. -/
  undone : Finset String := ∅
  /-- Ids a `Release` has succeeded for. -/
  released : Finset String := ∅
  /-- Ids the state file has ever named. -/
  filed : Finset String := ∅
  /-- Ids issued before some successful listing was sent and missing from it. -/
  lacked : Finset String := ∅
  /-- Those of them that a listing of this process was missing. -/
  missed : Finset String := ∅
  /-- Ids some successful listing of this process had. -/
  vouched : Finset String := ∅
  /-- Ids of the table this process loaded. -/
  loaded : Finset String := ∅
  /-- Ids issued when a thread's listing was sent. -/
  listing : Tid → Finset String := fun _ => ∅
  /-- Owner reads: for which key, of which name, with what reply. -/
  reads : List (Key × String × OwnerRead) := []
  /-- Running notifications: key and sandbox. -/
  running : Finset (Key × String) := ∅
  /-- How far each key's queue has come. -/
  progress : Key → Progress := fun _ => {}
  /-- Every binding, newest first. -/
  bindings : List Binding := []
  /-- The Pods `DeletePod` was called with. -/
  deletes : List Pod := []
  /-- The call a thread is in, with its number. -/
  calls : Tid → Option (ℕ × Op) := fun _ => none
  /-- How many calls there have been. -/
  count : ℕ := 0
  /-- The lifecycle calls that returned nil. -/
  returned : Finset ℕ := ∅
  /-- The instant of a thread's last read-locked section, or of the beginning of its call. -/
  readAt : Tid → ℕ := fun _ => 0
  /-- The instant the save lock was last taken. -/
  savingSince : ℕ := 0
  /-- Some file operation has failed. -/
  writeFailed : Bool := false
  /-- Some listing of this process has failed. -/
  listFailed : Bool := false
  /-- The instant this process began. -/
  born : ℕ := 0

/-- The ids of the issued credentials. -/
def Ledger.issuedIds (l : Ledger) : Finset String := l.issued.image (·.id)

/-! ## The state -/

/-- Where the process stands. -/
inductive Phase where
  | down | booting | up
  deriving DecidableEq

/-- The shared state. -/
structure State where
  mem : Memory := {}
  disk : Disk
  saveMu : Option Tid := none
  phase : Phase := .down
  ledger : Ledger := {}
  past : List Memory := []

namespace State

/-- The current instant: how many versions of the tables came before. -/
def instant (s : State) : ℕ := s.past.length

/-- The tables as they were at an instant. -/
def memAt (s : State) (n : ℕ) : Option Memory := (s.mem :: s.past).reverse[n]?

/-- The tables change. -/
def setMem (s : State) (m : Memory) : State := { s with mem := m, past := s.mem :: s.past }

/-- The ledger changes. -/
def record (s : State) (f : Ledger → Ledger) : State := { s with ledger := f s.ledger }

end State

/-- The credentials of a table. -/
def StateFile.creds (st : StateFile) : Finset Credential :=
  (st.claims.entries.map fun e => e.2.cred).toFinset ∪ (st.releasing.map Claim.cred).toFinset

/-- The ids of a table. -/
def StateFile.ids (st : StateFile) : Finset String := st.creds.image (·.id)

/-- The ids of a table's rows. -/
def StateFile.rowIds (st : StateFile) : Finset String :=
  (st.claims.entries.map fun e => e.2.id).toFinset

/-- A machine that has never run, with this state file; the credentials in it count as issued. -/
def State.initial (file : File) : State :=
  { disk := { file := file }
    ledger := { issued := file.content.creds, filed := file.content.ids } }

theorem StateFile.mem_creds {st : StateFile} {cr : Credential} : cr ∈ st.creds ↔ st.Holds cr := by
  simp only [creds, Holds, Finset.mem_union, Multiset.mem_toFinset, Multiset.mem_map,
    List.mem_toFinset, List.mem_map]
  refine or_congr ⟨?_, ?_⟩ Iff.rfl
  · rintro ⟨⟨k, c⟩, hm, rfl⟩
    exact ⟨k, c, Finmap.lookup_eq_some_iff.mpr hm, rfl⟩
  · rintro ⟨k, c, hm, rfl⟩
    exact ⟨⟨k, c⟩, Finmap.lookup_eq_some_iff.mp hm, rfl⟩

theorem StateFile.mem_rowIds {st : StateFile} {id : String} :
    id ∈ st.rowIds ↔ ∃ k c, st.claims.lookup k = some c ∧ c.id = id := by
  simp only [rowIds, Multiset.mem_toFinset, Multiset.mem_map]
  constructor
  · rintro ⟨⟨k, c⟩, hm, rfl⟩
    exact ⟨k, c, Finmap.lookup_eq_some_iff.mpr hm, rfl⟩
  · rintro ⟨k, c, hm, rfl⟩
    exact ⟨⟨k, c⟩, Finmap.lookup_eq_some_iff.mp hm, rfl⟩

/-! ## What each event does -/

/-- Which thread runs which call: a queue its own key's lifecycle calls, each loop its own tick. -/
def mayCall : Tid → Op → Bool
  | .lifecycle key, .createPod pod => pod.key = key
  | .lifecycle key, .updatePod pod => pod.key = key
  | .lifecycle key, .deletePod pod => pod.key = key
  | .verification _, .claimVerification => true
  | .leaseWatch _, .publishExpiredLeases => true
  | .ownerRecheck, .recheckOwners _ _ => true
  | .orphanScan, .orphanScan => true
  | .controller, .notifyPods => true
  | _, _ => false

/-- A call begins: it is numbered, and a lifecycle call starts its key's progress afresh. -/
def Ledger.begin (t : Tid) (op : Op) (instant : ℕ) (l : Ledger) : Ledger :=
  { l with
    calls := Function.update l.calls t (some (l.count, op))
    count := l.count + 1
    readAt := Function.update l.readAt t instant
    deletes := match op with
      | .deletePod pod => pod :: l.deletes
      | _ => l.deletes
    progress := match t with
      | .lifecycle key =>
        Function.update l.progress key { touched := (l.progress key).touched }
      | _ => l.progress }

/-- `New` begins: nothing is loaded, vouched for or missed in this process. -/
def Ledger.boot (instant : ℕ) (l : Ledger) : Ledger :=
  { l with loaded := ∅, vouched := ∅, missed := ∅, listFailed := false, born := instant }

/-- The progress of the keys after a write-locked section. -/
def Ledger.progressAfter (a : Section) (s : State) (l : Ledger) : Key → Progress :=
  let touch (key : Key) (f : Progress → Progress) :=
    Function.update l.progress key
      { f (l.progress key) with dirty := true, touched := s.instant + 1 }
  match a with
  | .load _ _ => fun key => { l.progress key with touched := s.instant + 1 }
  | .adoptExistingClaim key pod => touch key fun p =>
    match s.mem.adopted key pod with
    | some c => { p with bound := some c.id }
    | none => { p with declined := true }
  | .insertClaim key _ c => touch key fun p => { p with inHand := none, bound := some c.id }
  | .withdrawClaim key _ | .preserveClaim key _ _ | .dropClaim key _ => touch key id
  | _ => l.progress

/-- The bindings after a write-locked section. -/
def Ledger.bindingsAfter (a : Section) (s : State) (l : Ledger) : List Binding :=
  let call (key : Key) : ℕ := ((l.calls (.lifecycle key)).map (·.1)).getD 0
  match a with
  | .adoptExistingClaim key pod =>
    match s.mem.adopted key pod with
    | some c => ⟨key, c.id, pod, call key, s.instant + 1⟩ :: l.bindings
    | none => l.bindings
  | .insertClaim key pod c => ⟨key, c.id, pod, call key, s.instant + 1⟩ :: l.bindings
  | _ => l.bindings

/-- What a write-locked section leaves in the ledger. -/
def Ledger.entered (a : Section) (s : State) (l : Ledger) : Ledger :=
  { l with progress := l.progressAfter a s, bindings := l.bindingsAfter a s }

/-- A thread goes through a read-locked section. -/
def State.looked (s : State) (t : Tid) : State :=
  s.record fun l => { l with readAt := Function.update l.readAt t s.instant }

/-- A thread goes through a write-locked section. -/
def State.entered (s : State) (a : Section) : State :=
  (s.setMem (a.run s.mem)).record (·.entered a s)

/-- A Running notification, as the ledger keeps it. -/
def runningEntry (pod : Pod) : Option (Key × String) :=
  if pod.status.phase = .running then
    (pod.annotations.lookup annClaimID).map fun id => (pod.key, id)
  else none

/-- **What a request and its reply do to the state**; `none` when that reply is impossible now. -/
def answer (t : Tid) : (e : Request) → Reply e → State → Option State
  -- Go's clock starts in 1885, long after the zero time
  | .now, now, s => if second ≤ now then some s else none
  | .rangeOver keys, order, s => if order.Nodup ∧ order.toFinset = keys then some s else none
  | .sendClaim _, _, s => some s
  | .claim _, .error _, s => some s
  | .claim spec, .ok res, s =>
    -- sandboxd never issues an id twice
    if res.id ∈ s.ledger.issuedIds then none
    else some <| s.record fun l =>
      { l with
        issued := insert ⟨res.id, res.token⟩ l.issued
        claimedFor := insert (res.id, spec.claimRef) l.claimedFor
        progress := Function.update l.progress spec.claimRef
          { l.progress spec.claimRef with inHand := some res } }
  | .sendRelease id _, _, s => some <| s.record fun l =>
    { l with
      sent := insert id l.sent
      undone := match t with
        | .lifecycle key =>
          if key ∈ s.mem.tentative ∧ (s.mem.claims.lookup key).any (·.id = id) then
            insert id l.undone
          else l.undone
        | _ => l.undone }
  | .release _ _, .error _, s => some s
  | .release id _, .ok _, s => some <| s.record fun l => { l with released := insert id l.released }
  | .sendList, _, s => some <| s.record fun l =>
    { l with listing := Function.update l.listing t l.issuedIds }
  | .sandboxes, .error _, s => some <| s.record fun l => { l with listFailed := true }
  | .sandboxes, .ok listed, s => some <| s.record fun l =>
    { l with
      lacked := l.lacked ∪ (l.listing t).filter fun id => id ∉ listedIds listed
      missed := l.missed ∪ (l.listing t).filter fun id => id ∉ listedIds listed
      vouched := l.vouched ∪ (listedIds listed).toFinset }
  | .getOwner key _ _ name, r, s => some <| s.record fun l =>
    { l with reads := (key, name, r) :: l.reads }
  | .notify pod, _, s => some <| s.record fun l =>
    { l with
      running := match runningEntry pod with
        | some e => insert e l.running
        | none => l.running }
  | .lockSave, _, s =>
    if s.saveMu = none then
      some <| { s with saveMu := some t }.record fun l => { l with savingSince := s.instant }
    else none
  | .unlockSave, _, s => if s.saveMu = some t then some { s with saveMu := none } else none
  | .mkdirAll, .ok _, s => some s
  | .mkdirAll, .error _, s => some <| s.record fun l => { l with writeFailed := true }
  | .writeFile st, .ok _, s => some
    { s with disk := { s.disk with tmp := some ⟨st.marshal, s.ledger.readAt t, t⟩ } }
  | .writeFile _, .error _, s => some <|
    -- a failed write leaves the temporary in no useful state
    { s with disk := { s.disk with tmp := none } }.record fun l => { l with writeFailed := true }
  | .rename, .ok _, s =>
    match s.disk.tmp with
    | some d => some <|
      { s with
        disk :=
          { file := .table d.st, instant := some d.instant, writer := some d.writer } }.record
        fun l => { l with filed := l.filed ∪ d.st.ids }
    | none => none
  | .rename, .error _, s => some <| s.record fun l => { l with writeFailed := true }
  | .readFile, .failed _, s => some s
  | .readFile, .absent, s => if s.disk.file = .absent then some s else none
  | .readFile, .undecodable _, s => if s.disk.file = .garbage then some s else none
  | .readFile, .decoded st, s =>
    if s.disk.file = .table st then
      some <| s.record fun l => { l with loaded := st.rowIds }
    else none

/-- `New` returns: the process is up, or gone. -/
def State.booted (s : State) : Outcome → State
  | .ok => { s with phase := .up }
  | _ => { s.setMem {} with phase := .down }

/-- A call returns. -/
def Ledger.finish (t : Tid) (op : Op) (r : Outcome) (l : Ledger) : Ledger :=
  { l with
    calls := Function.update l.calls t none
    returned := match op, r, l.calls t with
      | .createPod _, .ok, some (n, _) | .updatePod _, .ok, some (n, _)
      | .deletePod _, .ok, some (n, _) => insert n l.returned
      | _, _, _ => l.returned }

/-- The process dies: the tables, the lock and every call are gone. -/
def State.crash (s : State) : State :=
  { s.setMem {} with
    saveMu := none
    phase := .down
    ledger :=
      { s.ledger with
        calls := fun _ => none
        progress := fun key => { touched := (s.ledger.progress key).touched } } }

/-- **What each event does to the shared state.** -/
def apply : Ev → State → Option State
  | .started t op, s =>
    match t, op with
    | .boot, .new =>
      if s.phase = .down ∧ (s.ledger.calls .boot).isNone then
        some ({ s with phase := .booting }.record fun l =>
          (l.begin .boot .new s.instant).boot s.instant)
      else none
    | t, op =>
      if s.phase = .up ∧ mayCall t op ∧ (s.ledger.calls t).isNone then
        some (s.record (·.begin t op s.instant))
      else none
  | .read t, s => some (s.looked t)
  | .locked _ a, s => some (s.entered a)
  | .asked t e r, s => answer t e r s
  | .finished t op r, s =>
    let s' := s.record (·.finish t op r)
    match t with
    | .boot => some (s'.booted r)
    | _ => some s'
  | .crashed, s => if s.phase = .down then none else some s.crash

/-- **The machine**: `main.go`'s goroutines over one provider, one disk and one node. -/
def machine (cfg : Config) : Machine State Memory Section Request Reply Tid Op Outcome where
  mem := State.mem
  code := code cfg
  apply := apply

/-- A run of the machine from a state file, with its events. -/
abbrev Runs (cfg : Config) (file : File) (tr : List Ev)
    (c : Interleave.Config State Memory Section Request Reply Tid Op Outcome) : Prop :=
  Run (machine cfg) ⟨State.initial file, fun _ => none⟩ tr c

end VkSandbox
