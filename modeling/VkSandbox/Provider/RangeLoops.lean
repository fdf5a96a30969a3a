import VkSandbox.Provider.Memory

/-!
# Provider/RangeLoops — the range loops behind the sections, iteration by iteration

Go visits the rows of a map in an order of its own choosing.  The sections of `Provider/Memory` say
what a range loop leaves behind (`Table.pick`); here are the loops as they are written, one row
after another along an arbitrary `order`, changing the tables as they go.  `range_loops_any_order`
says that each of them, in every order, is the section or the snapshot that the rest of the model
uses.

A loop that collects rows is `Table.foldl_eq_pick`.  A loop that changes rows in place is
`Table.Rowwise`: an iteration sees and changes one row.

The loops whose result does depend on the order are not here: `ClaimAddresses`, `OrphanScan` and
`GetPods` are modelled with the order they range in.
-/

namespace VkSandbox

open Table

namespace Memory

/-! ## The loops -/

/-- The first loop of `VerifyClaimsAgainstNode`: `for k := range p.quarantined`. -/
def unverifiedLoop (m : Memory) (order : List Key) : Table Key String :=
  order.foldl (fun before k => match m.claims.lookup k with
    | some c => before.insert k c.id
    | none => before) ∅

/-- One round of its second loop, `for key, id := range before`. -/
def settleKey (before : Table Key String) (live : Table String Time) (m : Memory) (key : Key) :
    Memory :=
  match before.lookup key with
  | none => m
  | some id =>
    match m.claims.lookup key with
    | none => m
    | some c =>
      -- replaced since the snapshot; this listing cannot judge it
      if c.id ≠ id then m
      else match live.lookup id with
        | some rowDeadline =>
          let m' := if c.deadline = 0 ∧ rowDeadline ≠ 0 then
              { m with claims := m.claims.insert key { c with deadline := rowDeadline } }
            else m
          { m' with quarantined := m'.quarantined.erase key }
        | none => { m with claims := m.claims.erase key, quarantined := m.quarantined.erase key }

/-- The second loop of `VerifyClaimsAgainstNode`. -/
def settleLoop (before : Table Key String) (live : Table String Time) (order : List Key)
    (m : Memory) :
    Memory :=
  order.foldl (settleKey before live) m

/-- One round of the backfill in `loadState`, which writes into the map it ranges over. -/
def backfillKey (now : Time) (claims : Table Key Claim) (k : Key) : Table Key Claim :=
  match claims.lookup k with
  | some c => if c.claimedAt = 0 then claims.insert k { c with claimedAt := now } else claims
  | none => claims

/-- `loadState` after the file is decoded. -/
def loadLoop (st : StateFile) (now : Time) (order : List Key) (m : Memory) : Memory :=
  { m with releasing := st.releasing, claims := order.foldl (backfillKey now) st.claims }

/-- The loop of `quarantineLoadedClaims`. -/
def quarantineLoop (order : List Key) (m : Memory) : Memory :=
  order.foldl (fun m key => { m with quarantined := insert key m.quarantined }) m

/-- The loop of `write`. -/
def snapshotLoop (m : Memory) (committing : Option Key) (order : List Key) : StateFile where
  claims := order.foldl (fun claims k => match m.claims.lookup k with
    | some c => if k ∉ m.tentative ∨ committing = some k then claims.insert k c else claims
    | none => claims) ∅
  releasing := m.releasing

/-- The loop of `recheckOwners` that gathers the preserved claims. -/
def preservedLoop (m : Memory) (order : List Key) : Table Key Claim :=
  order.foldl (fun preserved key => match m.claims.lookup key with
    | some c =>
      if c.owner.isSome && (m.pods.lookup key).isNone && m.settled key then preserved.insert key c
      else preserved
    | none => preserved) ∅

/-- Its `maps.DeleteFunc`: the rechecks of the claims that are no longer preserved go. -/
def pruneLoop (keep : Finset Key) (order : List Key) (m : Memory) : Memory :=
  { m with ownerRechecks := order.foldl (fun rechecks key =>
      if key ∈ keep then rechecks else rechecks.erase key) m.ownerRechecks }

/-- The loop of `publishExpiredLeases` that gathers the candidates. -/
def candidatesLoop (m : Memory) (now : Time) (order : List Key) : Table Key Claim :=
  order.foldl (fun candidates key => match m.claims.lookup key with
    | some c =>
      if !c.expired now || !m.settled key || (m.pods.lookup key).isNone then candidates
      else candidates.insert key c
    | none => candidates) ∅

/-! ## Loops that collect -/

variable {m : Memory} {order : List Key}

theorem mem_of_lookup (ho : Ranges m.claims.keys order) {k : Key} {c : Claim}
    (hc : m.claims.lookup k = some c) : k ∈ order :=
  ho.mem_iff.mpr (Finmap.mem_keys.mpr (Finmap.mem_of_lookup_eq_some hc))

theorem unverifiedLoop_eq (ho : Ranges m.quarantined order) :
    m.unverifiedLoop order = m.unverified := by
  refine foldl_eq_pick (fun k c id _ hid => ?_) (fun out k hk c hc => ?_)
    fun out k _ hk => by rw [hk]
  · split at hid
    · next hq => exact ho.mem_iff.mpr hq
    · cases hid
  · rw [hc, if_pos (ho.mem_iff.mp hk)]
    rfl

theorem snapshotLoop_eq (ho : Ranges m.claims.keys order) (committing : Option Key) :
    m.snapshotLoop committing order = m.snapshot committing := by
  rw [snapshotLoop, foldl_eq_pick (fun k c _ hc _ => mem_of_lookup ho hc) (fun out k _ c hc => ?_)
    fun out k _ hk => by rw [hk]]
  · rfl
  · rw [hc]
    dsimp only
    split <;> rfl

theorem preservedLoop_eq (ho : Ranges m.claims.keys order) :
    m.preservedLoop order = m.preserved := by
  refine foldl_eq_pick (fun k c _ hc _ => mem_of_lookup ho hc) (fun out k _ c hc => ?_)
    fun out k _ hk => by rw [hk]
  rw [hc]
  dsimp only
  split <;> rfl

theorem candidatesLoop_eq (ho : Ranges m.claims.keys order) (now : Time) :
    m.candidatesLoop now order = m.candidates now := by
  refine foldl_eq_pick (fun k c _ hc _ => mem_of_lookup ho hc) (fun out k _ c hc => ?_)
    fun out k _ hk => by rw [hk]
  rw [hc]
  dsimp only
  split <;> rfl

/-! ## Loops that change rows in place -/

theorem rowwise_backfill (now : Time) :
    Rowwise (fun k claims => claims.lookup k) (backfillKey now) fun _ row =>
      row.map fun c => if c.claimedAt = 0 then { c with claimedAt := now } else c where
  own claims k := by
    unfold backfillKey
    cases hc : claims.lookup k with
    | none => exact hc
    | some c =>
      dsimp only [Option.map_some]
      split
      · exact Finmap.lookup_insert claims
      · exact hc
  other claims k k' hne := by
    unfold backfillKey
    split
    · split
      · exact Finmap.lookup_insert_of_ne claims hne
      · rfl
    · rfl

theorem loadLoop_eq {st : StateFile} (ho : Ranges st.claims.keys order) (now : Time) :
    loadLoop st now order m = load st now m := by
  have hrows : order.foldl (backfillKey now) st.claims = st.claims.pick fun _ c =>
      some (if c.claimedAt = 0 then { c with claimedAt := now } else c) := by
    refine Finmap.ext_lookup fun k => ?_
    rw [(rowwise_backfill now).foldl ho.1, lookup_pick]
    split
    · cases st.claims.lookup k <;> rfl
    · next hk =>
      rw [ho.mem_iff, Finmap.mem_keys, ← Finmap.lookup_eq_none] at hk
      rw [hk]
      rfl
  rw [loadLoop, hrows]
  rfl

theorem quarantineLoop_eq (ho : Ranges m.claims.keys order) :
    quarantineLoop order m = m.quarantineLoadedClaims := by
  have hfold : ∀ (order : List Key) (m : Memory),
      quarantineLoop order m = { m with quarantined := m.quarantined ∪ order.toFinset } := by
    intro order
    induction order with
    | nil =>
      intro m
      rw [List.toFinset_nil, Finset.union_empty]
      rfl
    | cons key rest ih =>
      intro m
      rw [quarantineLoop, List.foldl_cons, ← quarantineLoop, ih, List.toFinset_cons,
        Finset.insert_union, Finset.union_insert]
  rw [hfold, ho.2]
  rfl

theorem rowwise_prune (keep : Finset Key) :
    Rowwise (fun k (rechecks : Table Key OwnerRecheck) => rechecks.lookup k)
      (fun rechecks key => if key ∈ keep then rechecks else rechecks.erase key)
      fun k row => if k ∈ keep then row else none where
  own rechecks k := by
    split
    · rfl
    · exact Finmap.lookup_erase k rechecks
  other rechecks k k' hne := by
    split
    · rfl
    · exact Finmap.lookup_erase_ne hne

theorem pruneLoop_eq (ho : Ranges m.ownerRechecks.keys order) (keep : Finset Key) :
    pruneLoop keep order m = (Section.pruneRechecks keep).run m := by
  have hrows : order.foldl (fun rechecks key => if key ∈ keep then rechecks else rechecks.erase key)
      m.ownerRechecks = m.ownerRechecks.pick fun k r => if k ∈ keep then some r else none := by
    refine Finmap.ext_lookup fun k => ?_
    rw [(rowwise_prune keep).foldl ho.1, lookup_pick]
    cases hr : m.ownerRechecks.lookup k with
    | none => simp only [ite_self, Option.bind_none]
    | some r =>
      rw [if_pos (ho.mem_iff.mpr (Finmap.mem_keys.mpr (Finmap.mem_of_lookup_eq_some hr))),
        Option.bind_some]
  rw [pruneLoop, hrows]
  rfl

/-- What the judging loop sees of a key, and the rest of the tables. -/
def viewOf (key : Key) (m : Memory) : Option Claim × Bool × Memory :=
  (m.claims.lookup key, key ∈ m.quarantined, { m with claims := ∅, quarantined := ∅ })

theorem ext_viewOf {m m' : Memory} (h : ∀ k, viewOf k m = viewOf k m') : m = m' := by
  have hclaims : m.claims = m'.claims := Finmap.ext_lookup fun k => congrArg Prod.fst (h k)
  have hq : m.quarantined = m'.quarantined := by
    ext k
    exact decide_eq_decide.mp (congrArg (·.2.1) (h k))
  have hrest := congrArg (·.2.2) (h "")
  cases m
  cases m'
  simp only [viewOf, Memory.mk.injEq, true_and] at hclaims hq hrest ⊢
  tauto

/-- What the listing makes of a key. -/
def judgement (before : Table Key String) (live : Table String Time) (key : Key)
    (v : Option Claim × Bool × Memory) : Option Claim × Bool × Memory :=
  match v.1 with
  | some c => if before.lookup key = some c.id then (settleRow live c, false, v.2.2) else v
  | none => v

section Settle

variable {before : Table Key String} {key : Key} {c : Claim} (live : Table String Time)

/-- A row that was replaced since the snapshot, or was not in it, is passed over. -/
theorem settleKey_of_ne (h : ∀ c, m.claims.lookup key = some c → before.lookup key ≠ some c.id) :
    settleKey before live m key = m := by
  unfold settleKey
  split
  · rfl
  · next id hid =>
    split
    · rfl
    · next c hc => exact if_pos fun he : c.id = id => h c hc (by rw [he, hid])

/-- A judged row is rewritten or deleted, and its key leaves quarantine. -/
theorem settleKey_of_eq (hc : m.claims.lookup key = some c) (hb : before.lookup key = some c.id) :
    ∃ claims', settleKey before live m key
        = { m with claims := claims', quarantined := m.quarantined.erase key } ∧
      claims'.lookup key = settleRow live c ∧
      ∀ k', k' ≠ key → claims'.lookup k' = m.claims.lookup k' := by
  simp only [settleKey, hb, hc, ne_eq, not_true_eq_false, if_false, settleRow]
  cases live.lookup c.id with
  | none =>
    exact ⟨_, rfl, Finmap.lookup_erase key m.claims, fun k' hne => Finmap.lookup_erase_ne hne⟩
  | some d =>
    dsimp only [Option.map_some]
    split
    · exact ⟨_, rfl, Finmap.lookup_insert m.claims, fun k' hne => Finmap.lookup_insert_of_ne _ hne⟩
    · exact ⟨_, rfl, hc, fun _ _ => rfl⟩

theorem judgement_of_ne {v : Option Claim × Bool × Memory}
    (h : ∀ c, v.1 = some c → before.lookup key ≠ some c.id) : judgement before live key v = v := by
  unfold judgement
  split
  · next c hc => exact if_neg (h c hc)
  · rfl

theorem rowwise_settle (before : Table Key String) :
    Rowwise viewOf (settleKey before live) (judgement before live) where
  own m key := by
    by_cases h : ∃ c, m.claims.lookup key = some c ∧ before.lookup key = some c.id
    · obtain ⟨c, hc, hb⟩ := h
      obtain ⟨claims', he, hown, -⟩ := settleKey_of_eq live hc hb
      simp only [he, viewOf, hown, judgement, hc, hb, if_true, Finset.notMem_erase, decide_false]
    · rw [settleKey_of_ne live fun c hc hb => h ⟨c, hc, hb⟩,
        judgement_of_ne live fun c hc hb => h ⟨c, hc, hb⟩]
  other m key k' hne := by
    by_cases h : ∃ c, m.claims.lookup key = some c ∧ before.lookup key = some c.id
    · obtain ⟨c, hc, hb⟩ := h
      obtain ⟨claims', he, -, hother⟩ := settleKey_of_eq live hc hb
      simp only [he, viewOf, hother k' hne, Finset.mem_erase, ne_eq, hne, not_false_eq_true,
        true_and]
    · rw [settleKey_of_ne live fun c hc hb => h ⟨c, hc, hb⟩]

theorem viewOf_settle (before : Table Key String) (m : Memory) (k : Key) :
    viewOf k (settle before live m) = judgement before live k (viewOf k m) := by
  cases hc : m.claims.lookup k with
  | none =>
    have hj : m.judged before k = false := by rw [judged, hc]
    simp only [viewOf, settle, judgement, lookup_pick, hc, Option.bind_none, Finset.mem_filter, hj,
      and_true]
  | some c =>
    have hj : m.judged before k = decide (before.lookup k = some c.id) := by rw [judged, hc]
    by_cases hb : before.lookup k = some c.id
    · simp [viewOf, settle, judgement, hc, hb, hj]
    · simp [viewOf, settle, judgement, hc, hb, hj]

theorem settleLoop_eq (ho : Ranges before.keys order) :
    settleLoop before live order m = settle before live m := by
  refine ext_viewOf fun k => ?_
  rw [settleLoop, (rowwise_settle live before).foldl ho.1, viewOf_settle]
  split
  · rfl
  · next hk =>
    -- a key outside the snapshot is not judged
    rw [ho.mem_iff, Finmap.mem_keys, ← Finmap.lookup_eq_none] at hk
    exact (judgement_of_ne live fun c _ hb => by rw [hk] at hb; cases hb).symm

end Settle

end Memory

/-! ## Every order -/

/-- **These range loops do not depend on the order Go visits a map in**: the two of
`VerifyClaimsAgainstNode`, the backfill of `loadState`, those of `quarantineLoadedClaims` and
`write`, the two that open `recheckOwners`, and the one that collects the candidates of
`publishExpiredLeases`.  Each leaves in every order what the section or the snapshot says. -/
theorem range_loops_any_order (m : Memory) (order : List Key) :
    (Ranges m.quarantined order → m.unverifiedLoop order = m.unverified) ∧
    (∀ before live, Ranges before.keys order →
      m.settleLoop before live order = (Section.settle before live).run m) ∧
    (∀ st now, Ranges st.claims.keys order →
      m.loadLoop st now order = (Section.load st now).run m) ∧
    (Ranges m.claims.keys order → m.quarantineLoop order = Section.quarantineLoadedClaims.run m) ∧
    (∀ committing, Ranges m.claims.keys order →
      m.snapshotLoop committing order = m.snapshot committing) ∧
    (Ranges m.claims.keys order → m.preservedLoop order = m.preserved) ∧
    (∀ keep, Ranges m.ownerRechecks.keys order →
      m.pruneLoop keep order = (Section.pruneRechecks keep).run m) ∧
    ∀ now, Ranges m.claims.keys order → m.candidatesLoop now order = m.candidates now :=
  ⟨Memory.unverifiedLoop_eq, fun _ live ho => Memory.settleLoop_eq live ho,
    fun _ now ho => Memory.loadLoop_eq ho now, Memory.quarantineLoop_eq,
    fun committing ho => Memory.snapshotLoop_eq ho committing, Memory.preservedLoop_eq,
    fun keep ho => Memory.pruneLoop_eq ho keep, fun now ho => Memory.candidatesLoop_eq ho now⟩

/-- Two rows of an older table, both unverified. -/
def sampleQuarantined : Memory where
  claims := ((∅ : Table Key Claim).insert "ns/a"
    { id := "s1", token := "t1", podUID := "uid-1" }).insert
    "ns/b" { id := "s2", token := "t2", podUID := "uid-2" }
  quarantined := {"ns/a", "ns/b"}

/-- The node lists one of the two. -/
theorem range_loops_of_two_rows :
    sampleQuarantined.unverifiedLoop ["ns/b", "ns/a"] = sampleQuarantined.unverified ∧
    sampleQuarantined.settleLoop sampleQuarantined.unverified (Finmap.singleton "s1" 7)
      ["ns/b", "ns/a"]
      = (Section.settle sampleQuarantined.unverified (Finmap.singleton "s1" 7)).run
        sampleQuarantined ∧
    sampleQuarantined.snapshotLoop none ["ns/b", "ns/a"] = sampleQuarantined.snapshot none := by
  have hq : Ranges sampleQuarantined.quarantined ["ns/b", "ns/a"] := ⟨by decide, by decide⟩
  have hb : Ranges sampleQuarantined.unverified.keys ["ns/b", "ns/a"] := ⟨by decide, by decide⟩
  have hc : Ranges sampleQuarantined.claims.keys ["ns/b", "ns/a"] := ⟨by decide, by decide⟩
  have h := range_loops_any_order sampleQuarantined ["ns/b", "ns/a"]
  exact ⟨h.1 hq, h.2.1 _ _ hb, h.2.2.2.2.1 none hc⟩

end VkSandbox
