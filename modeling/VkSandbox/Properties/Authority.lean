import VkSandbox.Properties.Durability
import VkSandbox.Properties.StateWrites
import VkSandbox.Properties.Versions

/-!
# Properties/Authority — a Pod deletion is not authority over its VM

`Keyed`: from an empty table, a sandbox stays with the key it was claimed for, in every version of
the tables and in the file.  `Loyal k uid`: as long as every Pod of `k` has the controller `uid` and
no read of an owner for `k` speaks against it, every version of the row answers to `uid`.  Each of
the paths that can end the row then fails at its own guard:

    superseded   by a Pod the row does not answer to      every Pod of `k` answers to `uid`
    re-checked   on a release verdict on its owner        every read for `k` preserves
    deleted      with authority                           the same
    undone       while tentative                          never notified Running
-/

namespace VkSandbox

open Interleave

variable {cfg : Config} {s s' : State} {t : Tid} {k : Key} {c : Claim} {uid : String} {ev : Ev}

/-! ## A sandbox stays with its key -/

/-- **Every sandbox is where it was claimed for**, in hand and as a row of any version; and what was
notified Running was settled in one of them. -/
structure Keyed (s : State) : Prop where
  key : ∀ {id k k'}, (id, k) ∈ s.ledger.claimedFor → (id, k') ∈ s.ledger.claimedFor → k = k'
  issued : ∀ {id k}, (id, k) ∈ s.ledger.claimedFor → id ∈ s.ledger.issuedIds
  hand : ∀ {k res}, (s.ledger.progress k).inHand = some res → (res.id, k) ∈ s.ledger.claimedFor
  rows : RowsFrom 0 (fun k c => (c.id, k) ∈ s.ledger.claimedFor) s
  running : ∀ {k id}, (k, id) ∈ s.ledger.running →
    ∃ i m c, s.memAt i = some m ∧ m.claimFor k = some c ∧ c.id = id

theorem Keyed.row (h : Keyed s) (hc : s.row k = some c) : (c.id, k) ∈ s.ledger.claimedFor :=
  h.rows.seen (Nat.zero_le _) s.memAt_instant hc

theorem Keyed.of_running (h : Keyed s) {id : String} (hk : (k, id) ∈ s.ledger.running) :
    (id, k) ∈ s.ledger.claimedFor := by
  obtain ⟨i, m, c, hm, hc, rfl⟩ := h.running hk
  exact h.rows.seen (Nat.zero_le _) hm (Memory.claimFor_eq_some.mp hc).2

theorem Keyed.hand_step (h : Keyed s) (hs : apply ev s = some s') {res : ClaimResult}
    (hk : (s'.ledger.progress k).inHand = some res) : (res.id, k) ∈ s'.ledger.claimedFor := by
  obtain hold | ⟨-, hnew⟩ := inHand_back hs hk
  · exact (effect hs).claimedFor (h.hand hold)
  · exact hnew

theorem Keyed.step (h : Keyed s) (hi : Inv cfg s) (hg : Guard cfg ev s)
    (hs : apply ev s = some s') :
    Keyed s' where
  key := fun {id k k'} hk hk' => by
    have he := effect hs
    obtain h₁ | ⟨t, spec, res, rfl, e₁, hn⟩ := he.claimedFor_new hk <;>
      obtain h₂ | ⟨t', spec', res', e, e₂, hn'⟩ := he.claimedFor_new hk'
    · exact h.key h₁ h₂
    · cases e₂
      exact absurd (h.issued h₁) hn'
    · cases e₁
      exact absurd (h.issued h₂) hn
    · cases e
      cases e₁
      cases e₂
      rfl
  issued := fun {id k} hk => by
    obtain h₁ | ⟨t, spec, res, rfl, e₁, hn⟩ := (effect hs).claimedFor_new hk
    · exact Finset.image_subset_image (effect hs).issued (h.issued h₁)
    · cases e₁
      simp only [apply, answer] at hs
      split at hs
      · cases hs
      · cases hs
        exact Finset.mem_image.mpr ⟨⟨res.id, res.token⟩, Finset.mem_insert_self _ _, rfl⟩
  hand := h.hand_step hs
  rows := by
    refine (h.rows.step ⟨fun _ => id, fun _ => id⟩ hi hg hs
      ⟨fun _ _ _ _ => id, fun _ _ => id, ?_⟩).mono
      fun hq => (effect hs).claimedFor hq
    rintro t k pod c rfl
    obtain ⟨-, -, -, -, -, res, now, hres, rfl, -⟩ := hg
    exact h.hand hres
  running := fun {k id} hk => by
    have he := effect hs
    obtain hold | ⟨t, pod, rfl, hrun⟩ := he.running_new hk
    · obtain ⟨i, m, c, hm, hc⟩ := h.running hold
      exact ⟨i, m, c, he.memAt hm, hc⟩
    · have hphase : pod.status.phase = .running := by
        by_contra hne
        simp [runningEntry, hne] at hrun
      obtain ⟨id', hid', hrg⟩ := hg.2.2.1 hphase
      obtain ⟨rfl, rfl⟩ : k = pod.key ∧ id = id' :=
        Prod.mk.inj (Option.some.inj (hrun.symm.trans hid'))
      obtain ⟨m, c, ⟨i, hm⟩, hc⟩ := hrg.seen
      exact ⟨i, m, c, he.memAt hm, hc⟩

theorem keyed_initial {file : File} (hf : file.content.claims = ∅) :
    Keyed (State.initial file) where
  key := fun h => absurd h (Finset.notMem_empty _)
  issued := fun h => absurd h (Finset.notMem_empty _)
  hand := fun h => by cases h
  rows := by
    refine ⟨fun {i m k c} _ hm hc => ?_, fun {k c} hc => ?_, .inl rfl⟩
    · have hm : m ∈ ([{}] : List Memory) := List.mem_of_getElem? hm
      obtain rfl := List.mem_singleton.mp hm
      simp at hc
    · change file.content.claims.lookup k = some c at hc
      rw [hf] at hc
      simp at hc
  running := fun h => absurd h (Finset.notMem_empty _)

/-! ## A row stays with its owner -/

/-- The Pod an event submits. -/
def submitted : Ev → Option Pod
  | .started _ op => op.pod
  | _ => none

/-- The owner read an event makes: for which key, of which name, with what reply. -/
def ownerRead : Ev → Option (Key × String × OwnerRead)
  | .asked _ (.getOwner key _ _ name) r => some (key, name, r)
  | _ => none

/-- The Pod's controller has this UID. -/
def Pod.ControlledBy (pod : Pod) (uid : String) : Prop := (controllerOf pod).map (·.uid) = some uid

instance (pod : Pod) (uid : String) : Decidable (pod.ControlledBy uid) :=
  inferInstanceAs (Decidable (_ = _))

theorem Pod.ControlledBy.authorityOf {pod : Pod} (h : pod.ControlledBy uid) :
    authorityOf pod = uid := by
  obtain ⟨ref, hr, rfl⟩ := Option.map_eq_some_iff.mp h
  rw [VkSandbox.authorityOf, hr]

theorem Pod.ControlledBy.ref {pod : Pod} (h : pod.ControlledBy uid) {ref : OwnerReference}
    (hr : controllerOf pod = some ref) : ref.uid = uid := by
  rw [ControlledBy, hr] at h
  exact Option.some.inj h

/-- **Every Pod submitted for `k` has the controller `uid`.** -/
def OwnedBy (k : Key) (uid : String) (tr : List Ev) : Prop :=
  ∀ ev ∈ tr, ∀ pod ∈ submitted ev, pod.key = k → pod.ControlledBy uid

/-- **No owner read for `k` speaks against `uid`.** -/
def VouchedFor (k : Key) (uid : String) (tr : List Ev) : Prop :=
  ∀ ev ∈ tr, ∀ r ∈ ownerRead ev, r.1 = k → r.2.2.Vouches r.2.1 uid

instance (k : Key) (uid : String) (tr : List Ev) : Decidable (OwnedBy k uid tr) :=
  inferInstanceAs (Decidable (∀ ev ∈ tr, ∀ pod ∈ submitted ev, pod.key = k → pod.ControlledBy uid))

instance (k : Key) (uid : String) (tr : List Ev) : Decidable (VouchedFor k uid tr) :=
  inferInstanceAs (Decidable (∀ ev ∈ tr, ∀ r ∈ ownerRead ev, r.1 = k → r.2.2.Vouches r.2.1 uid))

/-- The row answers to this UID, preserved or not. -/
structure Claim.Under (c : Claim) (uid : String) : Prop where
  authority : c.authority = some uid
  owner : ∀ ref, c.owner = some ref → ref.uid = uid

/-- A Pod of the owner may adopt. -/
theorem Claim.Under.adoptableBy (h : c.Under uid) {pod : Pod} (hp : pod.ControlledBy uid) :
    c.adoptableBy pod := by
  have hans : c.answersTo = some uid := by
    unfold answersTo
    split
    · next ref hr => rw [h.owner ref hr]
    · exact h.authority
  simp [Claim.adoptableBy, hans, hp.authorityOf]

/-- **Key `k` is loyal to the controller `uid`.** -/
structure Loyal (k : Key) (uid : String) (s : State) : Prop where
  calls : ∀ {t n op pod}, s.ledger.calls t = some (n, op) → op.pod = some pod → pod.key = k →
    pod.ControlledBy uid
  reads : ∀ {name read}, (k, name, read) ∈ s.ledger.reads → read.Vouches name uid
  rows : RowsFrom 0 (fun k' c => k' = k → c.Under uid) s
  queue : Queued (fun c => c.id ∈ s.ledger.issuedIds ∧ (c.id, k) ∉ s.ledger.claimedFor) s
  sent : ∀ {id}, id ∈ s.ledger.sent → (id, k) ∈ s.ledger.claimedFor → id ∈ s.ledger.undone

namespace Loyal

theorem serves (h : Loyal k uid s) {pod : Pod} (hp : s.Serves t pod) (hk : pod.key = k) :
    pod.ControlledBy uid := by
  obtain ⟨n, hn | hn⟩ := hp <;> exact h.calls hn rfl hk

theorem deletes (h : Loyal k uid s) {pod : Pod} (hp : s.Deletes t pod) (hk : pod.key = k) :
    pod.ControlledBy uid := by
  obtain ⟨n, hn⟩ := hp
  exact h.calls hn rfl hk

/-- No read for `k` authorises a release. -/
theorem not_authorised (h : Loyal k uid s) {ref : OwnerReference} (hu : ref.uid = uid) :
    ¬ s.Authorised k (some ref) := by
  intro ha
  obtain ⟨read, hr, hv⟩ := ha ref rfl
  subst hu
  rw [judgeOwner_of_vouches (h.reads hr)] at hv
  cases hv

theorem rows_step (h : Loyal k uid s) (hi : Inv cfg s) (hg : Guard cfg ev s)
    (hs : apply ev s = some s') : RowsFrom 0 (fun k' c => k' = k → c.Under uid) s' := by
  refine h.rows.step ⟨fun _ hq hk => ⟨(hq hk).authority, (hq hk).owner⟩,
    fun _ hq hk => ⟨(hq hk).authority, (hq hk).owner⟩⟩ hi hg hs ⟨?_, ?_, ?_⟩
  · rintro t k' pod c rfl - - - - rfl
    obtain ⟨-, -, hkey, hserves, -⟩ := hg
    exact ⟨by rw [Claim.rebind, (h.serves hserves hkey).authorityOf], nofun⟩
  · rintro t k' c owner rfl - hq rfl
    obtain ⟨-, -, pod, hdel, hkey, rfl, -⟩ := hg
    exact ⟨(hq rfl).authority, fun ref hr => (h.deletes hdel hkey).ref hr⟩
  · rintro t k' pod c rfl rfl
    obtain ⟨-, -, hkey, hserves, -, res, now, -, rfl, -⟩ := hg
    exact ⟨by rw [Claim.ofResult, (h.serves hserves hkey).authorityOf], nofun⟩

theorem queue_step (h : Loyal k uid s) (hk : Keyed s) (hi : Inv cfg s) (hg : Guard cfg ev s)
    (hs : apply ev s = some s') :
    Queued (fun c => c.id ∈ s'.ledger.issuedIds ∧ (c.id, k) ∉ s'.ledger.claimedFor) s' := by
  have hrow : ∀ {k' c}, s.row k' = some c → c.id ∈ s.ledger.issuedIds := fun hc =>
    Ledger.mem_issuedIds_of (hi.issued s.seen_mem (Memory.holds_row hc))
  refine (h.queue.step (fun hc => hc) hg hs ?_ ?_).mono fun {c} ⟨hc, hn⟩ => ⟨?_, fun hn' => ?_⟩
  · rintro t k' pod c rfl hc - had
    refine ⟨hrow hc, fun hm => ?_⟩
    obtain rfl := hk.key (hk.row hc) hm
    obtain ⟨-, -, hkey, hserves, -⟩ := hg
    have hunder : c.Under uid := h.rows.row hi hc rfl
    rw [hunder.adoptableBy (h.serves hserves hkey)] at had
    cases had
  · rintro t k' c cur rfl hcur hid
    rw [← hid]
    refine ⟨hrow hcur, fun hm => ?_⟩
    obtain rfl := hk.key (hk.row hcur) hm
    obtain ⟨-, -, hau, ⟨m, ⟨i, -, hm⟩, hp⟩, -⟩ := hg
    obtain ⟨hc, ho, -⟩ := Memory.lookup_preserved.mp hp
    obtain ⟨ref, hr⟩ := Option.isSome_iff_exists.mp ho
    rw [hr] at hau
    exact h.not_authorised ((h.rows.seen (Nat.zero_le _) hm hc rfl).owner ref hr) hau
  · exact Finset.image_subset_image (effect hs).issued hc
  · obtain hold | ⟨t, spec, res, -, he, hnew⟩ := (effect hs).claimedFor_new hn'
    · exact hn hold
    · rw [show res.id = c.id from (congrArg Prod.fst he).symm] at hnew
      exact hnew hc

/-- A sandbox of `k` is given back only while its row is tentative. -/
theorem sent_step (h : Loyal k uid s) (hk : Keyed s) (hi : Inv cfg s) (hg : Guard cfg ev s)
    (hs : apply ev s = some s') {id : String} (hid : id ∈ s'.ledger.sent)
    (hfor : (id, k) ∈ s'.ledger.claimedFor) : id ∈ s'.ledger.undone := by
  have he := effect hs
  obtain hold | ⟨t, token, rfl⟩ := he.sent_new hid
  · obtain hfor | ⟨t, spec, res, -, heq, hnew⟩ := he.claimedFor_new hfor
    · exact he.undone (h.sent hold hfor)
    · cases heq
      exact absurd (hi.sentIssued hold) hnew
  · injection hs with hs
    subst hs
    cases hg.2.1 with
    | @undo k' pod c _ ht hc =>
      have hany : (s.mem.claims.lookup k').any (·.id = c.id) = true := by
        rw [show s.mem.claims.lookup k' = some c from hc]
        simp
      simp [State.record, ht, hany]
    | @delete k' pod m c hdel hkey hm _ hc hau =>
      obtain rfl := hk.key (hk.rows.seen (Nat.zero_le _) hm hc) hfor
      obtain ⟨ref, hr, hu⟩ := Option.map_eq_some_iff.mp (h.deletes hdel hkey)
      rw [hr] at hau
      exact absurd hau (h.not_authorised hu)
    | @queued m c hm hc =>
      exact absurd hfor (h.queue.seen hm hc).2

theorem step (h : Loyal k uid s) (hk : Keyed s) (hi : Inv cfg s) (hg : Guard cfg ev s)
    (hs : apply ev s = some s')
    (hpod : ∀ pod ∈ submitted ev, pod.key = k → pod.ControlledBy uid)
    (hread : ∀ r ∈ ownerRead ev, r.1 = k → r.2.2.Vouches r.2.1 uid) : Loyal k uid s' where
  calls := fun {t n op pod} hc hop hkey => by
    obtain he | ⟨op', rfl, -, he, -⟩ | ⟨he, -⟩ := (effect hs).calls t
    · exact h.calls (he ▸ hc) hop hkey
    · rw [he] at hc
      cases hc
      exact hpod pod hop hkey
    · rw [he] at hc
      cases hc
  reads := fun {name read} hr => by
    obtain hold | ⟨t, key, gvr, ns, name', read', rfl, he⟩ := (effect hs).reads_new hr
    · exact h.reads hold
    · cases he
      exact hread _ rfl rfl
  rows := h.rows_step hi hg hs
  queue := h.queue_step hk hi hg hs
  sent := h.sent_step hk hi hg hs

/-- A sandbox of `k` that was notified Running has not been given back. -/
theorem not_sent (h : Loyal k uid s) (hk : Keyed s) (hu : Undone s) {id : String}
    (hrun : (k, id) ∈ s.ledger.running) : id ∉ s.ledger.sent := by
  intro hs
  obtain ⟨i, m, c, hm, hc, rfl⟩ := hk.running hrun
  obtain ⟨hset, hrow⟩ := Memory.claimFor_eq_some.mp hc
  exact (Memory.settled_eq_true.mp hset).1
    (hu.row (h.sent hs (hk.of_running hrun)) ⟨i, hm⟩ hrow rfl)

/-- A credential of `k` that the running provider holds is that of the row of `k`. -/
theorem row_of_holds (h : Loyal k uid s) (hk : Keyed s) {cr : Credential}
    (hcr : s.mem.all.Holds cr) (hfor : (cr.id, k) ∈ s.ledger.claimedFor) :
    ∃ c, s.row k = some c ∧ c.id = cr.id := by
  obtain ⟨k', c, hc, rfl⟩ | ⟨c, hc, rfl⟩ := hcr
  · obtain rfl := hk.key (hk.row hc) hfor
    exact ⟨c, hc, rfl⟩
  · exact absurd hfor (h.queue.seen s.seen_mem hc).2

end Loyal

theorem loyal_initial {file : File} (hf : file.content.claims = ∅) :
    Loyal k uid (State.initial file) where
  calls := fun h => by cases h
  reads := fun h => by cases h
  rows := (keyed_initial hf).rows.mono fun h => absurd h (Finset.notMem_empty _)
  queue := by
    refine ⟨fun {m c} hm hc => ?_, fun {c} hc => ⟨?_, Finset.notMem_empty _⟩⟩
    · obtain ⟨i, hm⟩ := hm
      have hm : m ∈ ([{}] : List Memory) := List.mem_of_getElem? hm
      obtain rfl := List.mem_singleton.mp hm
      cases hc
    · have hcr : c.cred ∈ (State.initial file).ledger.issued :=
        StateFile.mem_creds.mpr (.inr ⟨c, hc, rfl⟩)
      exact Ledger.mem_issuedIds_of hcr
  sent := fun h => absurd h (Finset.notMem_empty _)

/-! ## Pod deletion is not VM authority -/

section Results

variable {file : File} {tr : List Ev}
  {x : Interleave.Config State Memory Section Request Reply Tid Op Outcome}

theorem Runs.keyed (h : Runs cfg file tr x) (hf : file.content.claims = ∅) : Keyed x.shared :=
  h.guarded.invariant (sound cfg) (inv_initial cfg file) (keyed_initial hf)
    fun _ _ _ hi hj hg hs => hj.step hi hg hs

theorem Runs.loyal (h : Runs cfg file tr x) (hf : file.content.claims = ∅)
    (hpods : OwnedBy k uid tr) (hreads : VouchedFor k uid tr) :
    Loyal k uid x.shared :=
  (h.guarded.invariant_of (sound cfg) (inv_initial cfg file)
    (P := fun ev => (∀ pod ∈ submitted ev, pod.key = k → pod.ControlledBy uid) ∧
      ∀ r ∈ ownerRead ev, r.1 = k → r.2.2.Vouches r.2.1 uid)
    (J := fun s => Keyed s ∧ Loyal k uid s) ⟨keyed_initial hf, loyal_initial hf⟩
    (fun _ _ _ hP hi hj hg hs => ⟨hj.1.step hi hg hs, hj.2.step hj.1 hi hg hs hP.1 hP.2⟩)
    fun ev hev => ⟨hpods ev hev, hreads ev hev⟩).2

/-- **Pod deletion is not VM authority.**  From an empty table, with a lister and a state path: if
every Pod submitted for `k` has the controller `uid`, and every owner read for `k` returns something
other than its NotFound, its teardown, its expiry or another UID, then no Release is ever sent for a
sandbox of `k` that was notified Running.  Until a successful listing lacks that sandbox, no Claim
is sent for `k` either, and a `CreatePod` of `k` that returns nil has bound that same sandbox. -/
theorem pod_deletion_is_not_authority (hl : cfg.lister) (hsp : cfg.statePath)
    (hf : file.content.claims = ∅) (h : Runs cfg file tr x)
    (hpods : OwnedBy k uid tr) (hreads : VouchedFor k uid tr) {id : String}
    (hrun : (k, id) ∈ x.shared.ledger.running) :
    id ∉ x.shared.ledger.sent ∧
    (id ∉ x.shared.ledger.lacked → ∀ ev x', Step (machine cfg) x ev x' →
      (∀ t spec, ev = .asked t (.sendClaim spec) () → spec.claimRef ≠ k) ∧
      ∀ pod, ev = .finished (.lifecycle k) (.createPod pod) .ok →
        (x.shared.ledger.progress k).bound = some id) := by
  have hk := h.keyed hf
  have hloyal := h.loyal hf hpods hreads
  have hsent := hloyal.not_sent hk h.undone hrun
  refine ⟨hsent, fun hlack ev x' hstep => ?_⟩
  -- the row is still there
  have hheld : x.shared.phase = .up → ∃ c, x.shared.row k = some c ∧ c.id = id := fun hup => by
    obtain (hrel | hl') | ⟨hno, -⟩ | ⟨token, hsafe⟩ := h.notified hsp _ hrun
    · exact absurd (h.inv.releasedSent hrel) hsent
    · exact absurd hl' hlack
    · rw [hl] at hno
      cases hno
    · exact hloyal.row_of_holds hk (Memory.holds_of_snapshot (hsafe.2 hup)) (hk.of_running hrun)
  obtain ⟨hg, -⟩ := h.next hstep
  constructor
  · rintro t spec rfl rfl
    obtain ⟨hlive, rfl, hnone, -⟩ := hg
    obtain ⟨c, hc, -⟩ := hheld hlive
    rw [hc] at hnone
    cases hnone
  · rintro pod rfl
    obtain ⟨hlive, -, -, -, -, -, id', hcreated⟩ := hg
    obtain ⟨c, hc, rfl⟩ := hheld hlive
    obtain ⟨c', hc', rfl, -⟩ | ⟨hnone, -⟩ := hcreated.row
    · obtain rfl : c = c' := Option.some.inj (hc.symm.trans hc')
      exact hcreated.bound
    · rw [hc] at hnone
      cases hnone

/-- A Pod is deleted while its owner cannot be read; its replacement gets the same sandbox. -/
theorem pod_deletion_is_not_authority_of_replacement : ∃ tr x ev x',
    Runs fullConfig .absent tr x ∧ Step (machine fullConfig) x ev x' ∧
    samplePod "p" "u1" [sampleOwner "o"] ∈ x.shared.ledger.deletes ∧
    returnedOk ev = some (.lifecycle "ns/p", .createPod (samplePod "p" "u2" [sampleOwner "o"])) ∧
    "s1" ∉ x.shared.ledger.sent ∧ (x.shared.ledger.progress "ns/p").bound = some "s1" := by
  obtain ⟨tr, x, ev, x', hrun, hstep, hpods, hreads, hnot, hlack, hdel, hev⟩ :=
    exists_step fullConfig .absent
    (call .boot .new 10 {} ++ call .controller .notifyPods 2 {} ++
      call (.lifecycle "ns/p") (.createPod (samplePod "p" "u1" [sampleOwner "o"])) 18
        { claimed := .ok (sampleResult "s1") } ++
      call (.lifecycle "ns/p") (.deletePod (samplePod "p" "u1" [sampleOwner "o"])) 11 {} ++
      call (.lifecycle "ns/p") (.createPod (samplePod "p" "u2" [sampleOwner "o"])) 12 {})
    (.move (.lifecycle "ns/p") (World.reply {}))
    (fun tr s ev =>
      OwnedBy "ns/p" "o" tr ∧ VouchedFor "ns/p" "o" tr ∧
      ("ns/p", "s1") ∈ s.ledger.running ∧ "s1" ∉ s.ledger.lacked ∧
      samplePod "p" "u1" [sampleOwner "o"] ∈ s.ledger.deletes ∧
      returnedOk ev = some (.lifecycle "ns/p", .createPod (samplePod "p" "u2" [sampleOwner "o"])))
    (by decide +kernel)
  obtain ⟨hsent, hbound⟩ := pod_deletion_is_not_authority rfl rfl rfl hrun hpods hreads hnot
  exact ⟨tr, x, ev, x', hrun, hstep, hdel, hev, hsent,
    (hbound hlack _ _ hstep).2 _ (returnedOk_eq_some hev)⟩

end Results

end VkSandbox
