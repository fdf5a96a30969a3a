import VkSandbox.Properties.Generations

/-!
# Properties/Tracking — a tracked Pod is backed, and a failed create is retried

virtual-kubelet creates a Pod it does not find and updates one it does.  Under that discipline a key
is in one of three positions between its calls:

    untracked             the next sync creates
    tracked, settled      the next sync records metadata
    tracked, tentative    the next sync updates, and the update creates

and a tracked key always has the row of its Pod.  A create that returns an error leaves the first
position or the third.  What breaks this is a verification that judges by an old snapshot: it may
end a row that a create has adopted meanwhile, and the Pod stays behind.
-/

namespace VkSandbox

open Interleave

variable {cfg : Config} {s s' : State} {t u : Tid} {a : Section} {k : Key} {c : Claim} {p pod : Pod}
  {ev : Ev} {f : Option Pod}

/-! ## The discipline, and the condition -/

/-- **What virtual-kubelet does**: it creates a Pod whose key is untracked, and updates one whose
key is tracked. -/
def Disciplined (ev : Ev) (s : State) : Prop :=
  (match ev with
    | .started (.lifecycle k) (.createPod _) => (s.mem.pods.lookup k).isNone
    | .started (.lifecycle k) (.updatePod _) => (s.mem.pods.lookup k).isSome
    | _ => true) = true

instance (ev : Ev) (s : State) : Decidable (Disciplined ev s) :=
  inferInstanceAs (Decidable (_ = true))

/-- The snapshot and the listing the last section of a verification goes by. -/
def settlement : Ev → Option (Table Key String × Table String Time)
  | .locked _ (.settle before live) => some (before, live)
  | _ => none

/-- **A verification spares the tracked keys**: the listing its last section goes by has the sandbox
of every tracked key it judges. -/
def SparesTracked (ev : Ev) (s : State) : Prop :=
  ∀ v ∈ settlement ev, ∀ k ∈ s.mem.pods.keys, ∀ c ∈ s.row k, v.1.lookup k = some c.id →
    (v.2.lookup c.id).isSome

instance (ev : Ev) (s : State) : Decidable (SparesTracked ev s) :=
  inferInstanceAs (Decidable (∀ v ∈ settlement ev, ∀ k ∈ s.mem.pods.keys, ∀ c ∈ s.row k, _))

/-- The Pod of the last call of key `k` to return in this process, if that was a create, or an
update that created, and it returned an error. -/
def noteFailure (k : Key) (f : Option Pod) : Ev → Option Pod
  | .finished (.lifecycle k') op r =>
    if k' = k then
      match op, r with
      | .createPod pod, .err _ | .updatePod pod, .err _ => some pod
      | _, _ => none
    else f
  | .crashed => none
  | _ => f

/-- The create a trace leaves to be retried at key `k`. -/
def failedCreate (k : Key) (tr : List Ev) : Option Pod := tr.foldl (noteFailure k) none

@[simp] theorem failedCreate_snoc (tr : List Ev) (ev : Ev) :
    failedCreate k (tr ++ [ev]) = noteFailure k (failedCreate k tr) ev := by
  simp [failedCreate]

theorem State.Serves.unique {pod' : Pod} (h : s.Serves t pod) (h' : s.Serves t pod') :
    pod = pod' := by
  obtain ⟨n, hn | hn⟩ := h <;> obtain ⟨n', hn' | hn'⟩ := h' <;> cases hn.symm.trans hn' <;> rfl

/-- What a failed create leaves: an untracked key, or its own Pod with a claim that is not
durable. -/
def Retriable (s : State) (k : Key) (pod : Pod) : Prop :=
  s.mem.pods.lookup k = none ∨
    ∃ p, s.mem.pods.lookup k = some p ∧ p.uid = pod.uid ∧ k ∈ s.mem.tentative

/-! ## What the queue of a key keeps -/

/-- **The tracking of a key**, at any moment of its calls; `f` is the create to be retried there. -/
structure Tracking (k : Key) (f : Option Pod) (s : State) : Prop where
  down : s.phase ≠ .up → s.mem.pods.lookup k = none
  backed : ∀ {p}, s.mem.pods.lookup k = some p → ∃ c, s.row k = some c ∧ c.podUID = p.uid
  marked : ∀ {p}, s.mem.pods.lookup k = some p → k ∈ s.mem.tentative →
    (p.annotations.lookup annClaimID).isSome
  creating : ∀ {n pod}, s.ledger.calls (.lifecycle k) = some (n, .createPod pod) →
    (s.ledger.progress k).bound = none → s.mem.pods.lookup k = none
  updating : ∀ {pod}, s.Updates (.lifecycle k) pod → (s.ledger.progress k).declined = false →
    (s.mem.pods.lookup k).isSome
  /-- Once a call has decided, the Pod it finds tracked is its own. -/
  current : ∀ {pod p}, s.Serves (.lifecycle k) pod →
    (s.ledger.progress k).bound ≠ none ∨ (s.ledger.progress k).declined = true →
    s.mem.pods.lookup k = some p → p.uid = pod.uid
  failed : ∀ {pod}, f = some pod → s.ledger.calls (.lifecycle k) = none ∨
    (∃ pod', s.Updates (.lifecycle k) pod') ∧ (s.ledger.progress k).declined = false →
    Retriable s k pod

namespace Tracking

theorem initial (file : File) : Tracking k none (State.initial file) where
  down := fun _ => rfl
  backed := fun hp => by simp [State.initial] at hp
  marked := fun hp => by simp [State.initial] at hp
  creating := fun _ _ => rfl
  updating := fun ⟨_, hn⟩ => by simp [State.initial] at hn
  current := fun _ _ hp => by simp [State.initial] at hp
  failed := nofun

/-- A key that is untracked and idle. -/
theorem of_idle (hp : s.mem.pods.lookup k = none) (hc : s.ledger.calls (.lifecycle k) = none) :
    Tracking k f s where
  down := fun _ => hp
  backed := fun h => by rw [hp] at h; cases h
  marked := fun h => by rw [hp] at h; cases h
  creating := fun _ _ => hp
  updating := fun ⟨_, hn⟩ => by rw [hc] at hn; cases hn
  current := fun _ _ h => by rw [hp] at h; cases h
  failed := fun _ _ => .inl hp

/-- A key without a row is not tracked. -/
theorem untracked (h : Tracking k f s) (hn : s.row k = none) : s.mem.pods.lookup k = none := by
  cases hp : s.mem.pods.lookup k with
  | none => rfl
  | some p =>
    obtain ⟨c, hc, -⟩ := h.backed hp
    rw [hn] at hc
    cases hc

/-- Neither is the key of a create that may still end its settled row. -/
theorem untracked_of_undecided (h : Tracking k f s) (hu : s.Undecided k) (hs : s.mem.settled k)
    (hserves : s.Serves (.lifecycle k) pod) : s.mem.pods.lookup k = none := by
  obtain ⟨n, hn | hn⟩ := hserves
  · exact h.creating hn hu.1
  · exact absurd (hu.2 pod ⟨n, hn⟩).1 (Memory.settled_eq_true.mp hs).1

/-- What a create or update that fails leaves behind. -/
theorem retriable (h : Tracking k f s) (hserves : s.Serves (.lifecycle k) pod)
    (hf : FailedGuard s k pod) : Retriable s k pod := by
  cases hp : s.mem.pods.lookup k with
  | none => exact .inl hp
  | some p =>
    refine .inr ⟨p, hp, ?_⟩
    obtain ⟨-, hu⟩ | ⟨hd, hgone⟩ := hf
    · -- nothing is bound: a create would find the key untracked
      obtain ⟨n, hn | hn⟩ := hserves
      · rw [h.creating hn hu.1] at hp
        cases hp
      · obtain ⟨ht, hcur⟩ := hu.2 pod ⟨n, hn⟩
        exact ⟨by simpa [Memory.podUIDIsCurrent, hp] using hcur, ht⟩
    · refine ⟨h.current hserves (.inr hd) hp, hgone.resolve_left fun hn => ?_⟩
      rw [h.untracked hn] at hp
      cases hp

end Tracking

/-- **A tracked key loses its row to its own queue only**, if verification spares it. -/
theorem SectionGuard.tracked_row (hg : SectionGuard cfg s t a) (hC : SparesTracked (.locked t a) s)
    (hp : s.mem.pods.lookup k = some p) (hc : s.row k = some c) :
    (a.run s.mem).claims.lookup k ≠ none ∨ t = .lifecycle k ∧
      ((∃ id, a = .dropClaim k id) ∨ (∃ pod, a = .adoptExistingClaim k pod) ∨
        ∃ id, a = .withdrawClaim k id) := by
  obtain ⟨c', hc', -⟩ | hr := Section.row_forward (a := a) hc
  · exact .inl (by rw [hc']; exact Option.some_ne_none _)
  cases a with
  | load st now =>
    rw [hg.2.1] at hp
    simp at hp
  | settle before live =>
    have hlive :=
      hC (before, live) rfl k (Finmap.mem_keys.mpr (Finmap.mem_of_lookup_eq_some hp)) c hc hr.1
    rw [hr.2] at hlive
    cases hlive
  | dropClaim key id =>
    obtain ⟨rfl, rfl⟩ := hr
    exact .inr ⟨hg.1, .inl ⟨_, rfl⟩⟩
  | adoptExistingClaim key pod =>
    obtain ⟨rfl, -⟩ := hr
    exact .inr ⟨hg.1, .inr (.inl ⟨_, rfl⟩)⟩
  | withdrawClaim key id =>
    obtain ⟨rfl, rfl⟩ := hr
    exact .inr ⟨hg.1, .inr (.inr ⟨_, rfl⟩)⟩
  | insertClaim key pod c₀ =>
    obtain rfl : k = key := hr
    have hn := hg.2.2.2.1
    rw [hc] at hn
    cases hn
  | withdrawForRelease key c₀ =>
    obtain ⟨rfl, hw⟩ := hr
    obtain ⟨-, -, -, hnone⟩ := Memory.withdrawable_iff.mp hw
    rw [hp] at hnone
    cases hnone
  | _ => exact hr.elim

namespace Tracking

/-! ## Steps of others -/

/-- What the queue of a key relies on keeps its tracking, as long as its row does not end. -/
theorem congr (h : Tracking k f s) (o : Own k s s')
    (hcalls : s'.ledger.calls (.lifecycle k) = s.ledger.calls (.lifecycle k))
    (hph : s'.phase = s.phase)
    (hrow : ∀ {p c}, s.mem.pods.lookup k = some p → s.row k = some c → s'.row k ≠ none) :
    Tracking k f s' where
  down := fun hd => by rw [o.pods]; exact h.down (by rwa [← hph])
  backed := fun {p} hp => by
    rw [o.pods] at hp
    obtain ⟨c, hc, huid⟩ := h.backed hp
    obtain ⟨d, hd⟩ | ⟨hn, -⟩ := o.kept hc
    · exact ⟨_, hd, huid⟩
    · exact absurd hn (hrow hp hc)
  marked := fun hp ht => h.marked (by rwa [← o.pods]) (o.tentative.mp ht)
  creating := fun hn hb => by
    rw [o.pods]
    exact h.creating (hcalls ▸ hn) (by rwa [← o.progress])
  updating := fun ⟨n, hn⟩ hd => by
    rw [o.pods]
    exact h.updating ⟨n, hcalls ▸ hn⟩ (by rwa [← o.progress])
  current := fun hserves hdec hp => h.current (hserves.congr hcalls.symm) (by rwa [← o.progress])
    (by rwa [← o.pods])
  failed := fun {pod} hf hcall => by
    rw [hcalls, o.progress] at hcall
    have hret : Retriable s k pod := h.failed hf (hcall.imp_right fun ⟨⟨pod', n, hn⟩, hd⟩ =>
      ⟨⟨pod', n, hcalls ▸ hn⟩, hd⟩)
    obtain hn | ⟨p, hp, huid, ht⟩ := hret
    · exact .inl (o.pods.trans hn)
    · exact .inr ⟨p, o.pods.trans hp, huid, o.tentative.mpr ht⟩

theorem noteFailure_other (hu : ev.tid = some u) (hne : u ≠ .lifecycle k) :
    noteFailure k f ev = f := by
  cases ev with
  | finished t op r =>
    cases hu
    cases u with
    | lifecycle k' => exact if_neg fun hk => hne (by rw [hk])
    | _ => rfl
  | crashed => cases hu
  | _ => rfl

theorem step_other (h : Tracking k f s) (hi : Inv cfg s) (hg : Guard cfg ev s)
    (hs : apply ev s = some s') (hC : SparesTracked ev s) (hup : s.phase = .up)
    (hu : ev.tid = some u) (hne : u ≠ .lifecycle k) : Tracking k (noteFailure k f ev) s' := by
  have hcalm : Calm (.lifecycle k) s s' := Rely.of_event hi hg hs hu hne hup
  rw [noteFailure_other hu hne]
  refine h.congr (hcalm.own k rfl) hcalm.mine.calls hcalm.evolves.phase fun hp hc => ?_
  obtain ⟨hm, -⟩ | ⟨t, a, rfl, hm, -⟩ | ⟨hend, -⟩ := (effect hs).tables
  · rw [State.row, hm, ← State.row, hc]
    exact Option.some_ne_none _
  · rw [State.row, hm]
    refine (hg.2.tracked_row hC hp hc).resolve_right ?_
    rintro ⟨rfl, -⟩
    cases hu
    exact hne rfl
  · obtain ⟨-, hd⟩ | ⟨hb, -⟩ := hg.up_or_booting hs hu
    · exact absurd hup hd
    · exact absurd hend (by cases ev <;> simp_all [EndsProcess, Event.tid])

/-! ## Steps of the key's own queue -/

/-- The beginning of a call. -/
theorem step_started {op : Op} (h : Tracking k f s)
    (hs : apply (.started (.lifecycle k) op) s = some s')
    (hD : Disciplined (.started (.lifecycle k) op) s) : Tracking k f s' := by
  obtain ⟨ht, -⟩ | ⟨-, hup, -, hnone, rfl⟩ := apply_started hs
  · cases ht
  have hcall : (s.record (·.begin (.lifecycle k) op s.instant)).ledger.calls (.lifecycle k) =
      some (s.ledger.count, op) := Function.update_self _ _ _
  have hprog : (s.record (·.begin (.lifecycle k) op s.instant)).ledger.progress k =
      { touched := (s.ledger.progress k).touched } := Function.update_self _ _ _
  exact {
    down := h.down
    backed := h.backed
    marked := h.marked
    creating := fun hn _ => by
      cases hcall.symm.trans hn
      exact Option.isNone_iff_eq_none.mp hD
    updating := fun ⟨n, hn⟩ _ => by
      cases hcall.symm.trans hn
      exact hD
    current := fun _ hdec _ => by
      rw [hprog] at hdec
      simp at hdec
    failed := fun hf _ => h.failed hf (.inl hnone) }

/-- The end of a call: the create that fails is the one to be retried. -/
theorem step_finished {op : Op} {r : Outcome} (h : Tracking k f s)
    (hg : Guard cfg (.finished (.lifecycle k) op r) s)
    (hs : apply (.finished (.lifecycle k) op r) s = some s') :
    Tracking k (noteFailure k f (.finished (.lifecycle k) op r)) s' := by
  cases hs
  have hcall : (s.record (·.finish (.lifecycle k) op r)).ledger.calls (.lifecycle k) = none :=
    Function.update_self _ _ _
  obtain ⟨hlive, -, ⟨n, hn⟩, -, -, hret⟩ := hg
  have hnone : ∀ {e : ℕ × Op},
      (s.record (·.finish (.lifecycle k) op r)).ledger.calls (.lifecycle k) ≠ some e :=
    fun he => by rw [hcall] at he; cases he
  refine {
    down := h.down
    backed := h.backed
    marked := h.marked
    creating := fun hn _ => absurd hn hnone
    updating := fun ⟨_, hn⟩ _ => absurd hn hnone
    current := fun ⟨_, hn⟩ _ _ => by rcases hn with hn | hn <;> exact absurd hn hnone
    failed := fun {pod} hf _ => ?_ }
  simp only [noteFailure, if_pos] at hf
  split at hf
  · cases hf
    exact h.retriable ⟨n, .inl hn⟩ hret.2
  · cases hf
    exact h.retriable ⟨n, .inr hn⟩ hret.2
  · cases hf

/-- An event that leaves tables and calls as they are. -/
theorem step_still (h : Tracking k f s) (hm : s'.mem = s.mem) (hph : s'.phase = s.phase)
    (hcalls : s'.ledger.calls (.lifecycle k) = s.ledger.calls (.lifecycle k))
    (hb : (s'.ledger.progress k).bound = (s.ledger.progress k).bound)
    (hd : (s'.ledger.progress k).declined = (s.ledger.progress k).declined) : Tracking k f s' where
  down := by rw [hm, hph]; exact h.down
  backed := by rw [State.row, hm]; exact h.backed
  marked := by rw [hm]; exact h.marked
  creating := by rw [hm, hcalls, hb]; exact h.creating
  updating := fun ⟨n, hn⟩ => by rw [hm, hd]; exact h.updating ⟨n, hcalls ▸ hn⟩
  current := fun hserves => by
    rw [hm, hb, hd]
    exact h.current (hserves.congr hcalls.symm)
  failed := fun hf hcall => by
    rw [Retriable, hm]
    rw [hcalls, hd] at hcall
    refine h.failed hf (hcall.imp_right ?_)
    rintro ⟨⟨pod', n, hn⟩, hd⟩
    exact ⟨⟨pod', n, hcalls ▸ hn⟩, hd⟩

end Tracking

/-- Only a section on the Pod of a key decides what its call has bound or declined. -/
theorem Ledger.decided_progressAfter {l : Ledger} (h : a.podKey ≠ some k) :
    (l.progressAfter a s k).bound = (l.progress k).bound ∧
      (l.progressAfter a s k).declined = (l.progress k).declined := by
  have hne : ∀ key, a.podKey = some key → k ≠ key := by
    rintro key hk rfl
    exact h hk
  cases a with
  | adoptExistingClaim key pod | insertClaim key pod c | withdrawClaim key id
  | preserveClaim key id owner =>
    simp only [progressAfter, Function.update_of_ne (hne key rfl), and_self]
  | dropClaim key id =>
    simp only [progressAfter, Function.update_apply]
    split
    · next hk => subst hk; exact ⟨rfl, rfl⟩
    · exact ⟨rfl, rfl⟩
  | _ => exact ⟨rfl, rfl⟩

namespace Tracking

/-- A section of the queue that is not about its Pod. -/
theorem step_apart (h : Tracking k f s) (hi : Inv cfg s) (hg : SectionGuard cfg s (.lifecycle k) a)
    (hC : SparesTracked (.locked (.lifecycle k) a) s) (ha : a.podKey ≠ some k) :
    Tracking k f (s.entered a) := by
  have hpods : (s.entered a).mem.pods.lookup k = s.mem.pods.lookup k := Section.pods_other ha
  obtain ⟨hb, hd⟩ := Ledger.decided_progressAfter (s := s) (l := s.ledger) ha
  have hne : ∀ b : Section, b.podKey = some k → a ≠ b := fun b hk he => ha (he ▸ hk)
  refine {
    down := fun hd => hpods.trans (h.down hd)
    backed := fun {p} hp => ?_
    marked := fun hp ht => ?_
    creating := fun hn hb' => hpods.trans (h.creating hn (hb.symm.trans hb'))
    updating := fun hu hd' => by rw [hpods]; exact h.updating hu (hd.symm.trans hd')
    current := fun hserves hdec hp => ?_
    failed := fun {pod} hf hcall => ?_ }
  · rw [hpods] at hp
    obtain ⟨c, hc, huid⟩ := h.backed hp
    obtain hsome | ⟨-, ⟨id, rfl⟩ | ⟨pod, rfl⟩ | ⟨id, rfl⟩⟩ := hg.tracked_row hC hp hc
    · obtain ⟨c', hc'⟩ := Option.ne_none_iff_exists'.mp hsome
      refine ⟨c', hc', ?_⟩
      obtain ⟨c₀, hc₀, hedit⟩ | hcr := Section.row_edit hc'
      · obtain rfl : c₀ = c := Option.some.inj (hc₀.symm.trans hc)
        exact (hedit.podUID fun pod => hne _ rfl).trans huid
      · cases a with
        | load st now => cases hg.1
        | insertClaim key pod c₀ => exact absurd (by rw [hcr.1]; rfl) ha
        | _ => exact hcr.elim
    · obtain ⟨pod, hserves⟩ := hg.2.2.2.1 k rfl
      rw [h.untracked_of_undecided hg.2.2.2.2 hg.2.1 hserves] at hp
      cases hp
    · exact absurd rfl ha
    · exact absurd rfl ha
  · rw [hpods] at hp
    exact h.marked hp ((Section.tentative_back ht).resolve_right fun ⟨pod, c, he⟩ => hne _ rfl he)
  · have hdec' : (s.ledger.progress k).bound ≠ none ∨ (s.ledger.progress k).declined = true :=
      hdec.imp (fun hb' he => hb' (hb.trans he)) hd.symm.trans
    exact h.current hserves hdec' (hpods.symm.trans hp)
  · have hcall' : s.ledger.calls (.lifecycle k) = none ∨
        (∃ pod', s.Updates (.lifecycle k) pod') ∧ (s.ledger.progress k).declined = false :=
      hcall.imp_right fun ⟨hu, hd'⟩ => ⟨hu, hd.symm.trans hd'⟩
    obtain hn | ⟨p, hp, huid, ht⟩ := h.failed hf hcall'
    · exact .inl (hpods.trans hn)
    · refine .inr ⟨p, hpods.trans hp, huid, ?_⟩
      obtain ht' | ⟨id, rfl⟩ | rfl := Section.tentative_forward (a := a) ht
      · exact ht'
      · exact absurd rfl ha
      · -- a commit ends what a failed create has left, but only after its call has declined
        obtain ⟨-, hmu, -, c, -, -, -, hdec⟩ := hg
        rcases hcall' with hn | ⟨-, hd'⟩
        · have := hi.lockOwner hmu
          rw [hn] at this
          cases this
        · rw [hd'] at hdec
          cases hdec

/-- A section after which the key is untracked, and no update goes on. -/
theorem of_untracked (hp : (s.entered a).mem.pods.lookup k = none)
    (hu : ∀ pod, s.Updates (.lifecycle k) pod →
      ((s.entered a).ledger.progress k).declined = true) : Tracking k f (s.entered a) where
  down := fun _ => hp
  backed := fun h => by rw [hp] at h; cases h
  marked := fun h => by rw [hp] at h; cases h
  creating := fun _ _ => hp
  updating := fun {pod} hup hd => by rw [hu pod hup] at hd; cases hd
  current := fun _ _ h => by rw [hp] at h; cases h
  failed := fun _ _ => .inl hp

/-- A section that leaves the Pod of its call tracked, and backed. -/
theorem of_tracked (hlive : s.phase = .up) (hserves : s.Serves (.lifecycle k) pod)
    (hp : (s.entered a).mem.pods.lookup k = some p) (huid : p.uid = pod.uid)
    (hrow : (s.entered a).row k = some c) (hc : c.podUID = pod.uid)
    (hann : k ∈ (s.entered a).mem.tentative → (p.annotations.lookup annClaimID).isSome)
    (hb : ((s.entered a).ledger.progress k).bound ≠ none ∨ s.Updates (.lifecycle k) pod)
    (hfail : ∀ pod', f = some pod' → ∀ pod'', s.Updates (.lifecycle k) pod'' →
      ((s.entered a).ledger.progress k).declined = true) : Tracking k f (s.entered a) where
  down := fun hd => absurd hlive hd
  backed := fun h => by
    cases hp.symm.trans h
    exact ⟨c, hrow, hc.trans huid.symm⟩
  marked := fun h ht => by
    cases hp.symm.trans h
    exact hann ht
  creating := fun {n pod'} hn hnone => by
    obtain ⟨n', hn'⟩ := hb.resolve_left fun hb => hb hnone
    cases hn.symm.trans hn'
  updating := fun _ _ => by rw [hp]; rfl
  current := fun {pod' p'} hserves' _ h => by
    cases hp.symm.trans h
    obtain rfl : pod = pod' := State.Serves.unique hserves hserves'
    exact huid
  failed := fun {pod'} hf hcall => by
    rcases hcall with hn | ⟨⟨pod'', hu⟩, hd⟩
    · have := hserves.isSome
      rw [show s.ledger.calls (.lifecycle k) = none from hn] at this
      cases this
    · rw [hfail pod' hf pod'' hu] at hd
      cases hd

/-- `adoptExistingClaim`, when it finds nothing it may touch. -/
theorem of_declined (h : Tracking k f s) (hserves : s.Serves (.lifecycle k) pod)
    (hmem : s.mem.adoptExistingClaim k pod = s.mem) (hado : s.mem.adopted k pod = none)
    (hcur : ∀ {p}, s.mem.pods.lookup k = some p → p.uid = pod.uid) :
    Tracking k f (s.entered (.adoptExistingClaim k pod)) := by
  have hm : (s.entered (.adoptExistingClaim k pod)).mem = s.mem := hmem
  have hprog : (s.entered (.adoptExistingClaim k pod)).ledger.progress k
      = { s.ledger.progress k with declined := true, dirty := true, touched := s.instant + 1 } := by
    refine (Function.update_self _ _ _).trans ?_
    rw [hado]
    rfl
  exact {
    down := by rw [hm]; exact h.down
    backed := by rw [State.row, hm]; exact h.backed
    marked := by rw [hm]; exact h.marked
    creating := fun hn hb => by
      rw [hprog] at hb
      rw [hm]
      exact h.creating hn hb
    updating := fun _ hd => by
      rw [hprog] at hd
      cases hd
    current := fun hserves' _ hp => by
      rw [hm] at hp
      obtain rfl := hserves.unique hserves'
      exact hcur hp
    failed := fun _ hcall => by
      rcases hcall with hn | ⟨-, hd⟩
      · have := hserves.isSome
        rw [show s.ledger.calls (.lifecycle k) = none from hn] at this
        cases this
      · rw [hprog] at hd
        cases hd }

theorem step_adopt (h : Tracking k f s)
    (hg : SectionGuard cfg s (.lifecycle k) (.adoptExistingClaim k pod)) (hup : s.phase = .up) :
    Tracking k f (s.entered (.adoptExistingClaim k pod)) := by
  obtain ⟨-, -, hserves, hq, hu⟩ := hg
  have hnot : s.mem.settled k → ∀ pod', ¬ s.Updates (.lifecycle k) pod' := fun hs pod' hup' =>
    (Memory.settled_eq_true.mp hs).1 (hu.2 pod' hup').1
  obtain ⟨hn, hrun, hado⟩ | ⟨hs, hrun, hado⟩ | ⟨c, hc, hs, -, hrun, hado⟩ |
      ⟨c, hc, hs, -, hrun, hado⟩ :=
    Memory.adoptExistingClaim_cases k pod s.mem
  · refine h.of_declined hserves hrun hado fun hp => ?_
    rw [h.untracked hn] at hp
    cases hp
  · refine h.of_declined hserves hrun hado fun hp => ?_
    obtain ⟨n, hn | hn⟩ := hserves
    · rw [h.creating hn hu.1] at hp
      cases hp
    · simpa [Memory.podUIDIsCurrent, hp] using (hu.2 pod ⟨n, hn⟩).2
  · refine of_untracked ?_ fun pod' hup' => absurd hup' (hnot hs pod')
    have hm : (s.entered (.adoptExistingClaim k pod)).mem = _ := hrun
    rw [hm]
    exact h.untracked_of_undecided hu hs hserves
  · have hm : (s.entered (.adoptExistingClaim k pod)).mem = _ := hrun
    refine of_tracked (p := pod) (c := c.rebind pod) hup hserves ?_ rfl ?_ rfl (fun ht => ?_)
      (.inl ?_)
      fun pod' _ pod'' hup' => absurd hup' (hnot hs pod'')
    · rw [hm]
      exact Finmap.lookup_insert _
    · rw [State.row, hm]
      exact Finmap.lookup_insert _
    · rw [hm] at ht
      exact absurd ht (Memory.settled_eq_true.mp hs).1
    · change (s.ledger.progressAfter (.adoptExistingClaim k pod) s k).bound ≠ none
      simp [Ledger.progressAfter, hado]

theorem step_insert {c : Claim} (h : Tracking k f s)
    (hg : SectionGuard cfg s (.lifecycle k) (.insertClaim k pod c)) (hup : s.phase = .up) :
    Tracking k f (s.entered (.insertClaim k pod c)) := by
  obtain ⟨-, -, hserves, hn, res, now, -, rfl, -⟩ := hg
  have hprog : (s.entered (.insertClaim k pod (Claim.ofResult res pod now))).ledger.progress k
      = { s.ledger.progress k with
          inHand := none, bound := some res.id, dirty := true, touched := s.instant + 1 } :=
    Function.update_self _ _ _
  refine of_tracked hup hserves (Finmap.lookup_insert _) rfl (Finmap.lookup_insert _) rfl
    (fun _ => by simp [podWithClaim]) (.inl (by rw [hprog]; exact Option.some_ne_none _))
    fun pod' _ pod'' hup' => ?_
  -- an update that has not declined yet finds its key tracked, hence backed
  cases hd : (s.ledger.progress k).declined with
  | true => rw [hprog]; exact hd
  | false =>
    have := h.updating hup' hd
    rw [h.untracked hn] at this
    cases this

theorem step_update (h : Tracking k f s)
    (hg : SectionGuard cfg s (.lifecycle k) (.updatePod k pod)) (hup : s.phase = .up) :
    Tracking k f (s.entered (.updatePod k pod)) := by
  obtain ⟨-, -, hupd, hcur, hd⟩ := hg
  by_cases ht : k ∈ s.mem.tentative
  · have hm : (s.entered (.updatePod k pod)).mem = s.mem := if_pos ht
    exact h.step_still hm rfl rfl rfl rfl
  · have hm : (s.entered (.updatePod k pod)).mem = { s.mem with pods := s.mem.pods.insert k pod } :=
      if_neg ht
    obtain ⟨p, hp⟩ := Option.isSome_iff_exists.mp (h.updating hupd hd)
    have huid : p.uid = pod.uid := by simpa [Memory.podUIDIsCurrent, hp] using hcur
    obtain ⟨c, hc, hcu⟩ := h.backed hp
    obtain ⟨n, hn⟩ := hupd
    refine of_tracked (p := pod) (c := c) hup ⟨n, .inr hn⟩ ?_ rfl ?_ (hcu.trans huid)
      (fun ht' => ?_)
      (.inr ⟨n, hn⟩) fun pod' hf pod'' _ => ?_
    · rw [hm]
      exact Finmap.lookup_insert _
    · rw [State.row, hm]
      exact hc
    · rw [hm] at ht'
      exact absurd ht' ht
    · -- the create to be retried has left its key tentative
      obtain hnone | ⟨-, -, -, ht'⟩ := h.failed hf (.inr ⟨⟨pod, n, hn⟩, hd⟩)
      · rw [hp] at hnone
        cases hnone
      · exact absurd ht' ht

/-- A withdrawal, a forgotten Pod or a preservation leaves the key untracked. -/
theorem step_untrack (h : Tracking k f s) (hg : SectionGuard cfg s (.lifecycle k) a)
    (ha : (∃ id, a = .withdrawClaim k id) ∨ a = .forgetPod k ∨
      ∃ id owner, a = .preserveClaim k id owner) : Tracking k f (s.entered a) := by
  obtain ⟨id, rfl⟩ | rfl | ⟨id, owner, rfl⟩ := ha
  · refine of_untracked ?_ fun pod ⟨n, hn⟩ => Ledger.declined_progressAfter
      (hg.2.2.2.1 pod ⟨n, .inr hn⟩).2
    change (Memory.withdrawClaim k id s.mem).pods.lookup k = none
    simp only [Memory.withdrawClaim]
    split
    · next c hc =>
      rw [if_pos (hg.2.2.1 c hc)]
      exact Finmap.lookup_erase _ _
    · next hn => exact h.untracked hn
  · refine of_untracked (Finmap.lookup_erase _ _) fun pod hup => ?_
    cases hd : (s.ledger.progress k).declined with
    | true => exact hd
    | false =>
      have := h.updating hup hd
      rw [h.untracked hg.2] at this
      cases this
  · obtain ⟨-, pod, hdel, -⟩ := hg
    refine of_untracked (Finmap.lookup_erase _ _) fun pod' ⟨n, hn⟩ => ?_
    exact absurd hdel (State.Serves.not_deletes ⟨n, .inr hn⟩ pod)

theorem step_locked (h : Tracking k f s) (hi : Inv cfg s) (hup : s.phase = .up)
    (hg : SectionGuard cfg s (.lifecycle k) a) (hC : SparesTracked (.locked (.lifecycle k) a) s) :
    Tracking k f (s.entered a) := by
  by_cases ha : a.podKey = some k
  · cases a with
    | adoptExistingClaim key pod => cases ha; exact h.step_adopt hg hup
    | insertClaim key pod c => cases ha; exact h.step_insert hg hup
    | updatePod key pod => cases ha; exact h.step_update hg hup
    | withdrawClaim key id => cases ha; exact h.step_untrack hg (.inl ⟨id, rfl⟩)
    | forgetPod key => cases ha; exact h.step_untrack hg (.inr (.inl rfl))
    | preserveClaim key id owner => cases ha; exact h.step_untrack hg (.inr (.inr ⟨id, owner, rfl⟩))
    | _ => cases ha
  · exact h.step_apart hi hg hC ha

/-- A step of the key's queue. -/
theorem step_own (h : Tracking k f s) (hi : Inv cfg s) (hg : Guard cfg ev s)
    (hs : apply ev s = some s') (hD : Disciplined ev s) (hC : SparesTracked ev s)
    (hu : ev.tid = some (.lifecycle k)) (hup : s.phase = .up) :
    Tracking k (noteFailure k f ev) s' := by
  cases ev with
  | started t op => cases hu; exact h.step_started hs hD
  | read t => cases hs; exact h.step_still rfl rfl rfl rfl rfl
  | locked t a => cases hu; cases hs; exact h.step_locked hi hup hg.2 hC
  | asked t e r =>
    have he := answered hs
    have hprog : (s'.ledger.progress k).bound = (s.ledger.progress k).bound ∧
        (s'.ledger.progress k).declined = (s.ledger.progress k).declined := by
      obtain hp | ⟨op, hev, -⟩ | ⟨t', a, hev, -⟩ | ⟨t', spec, res, -, -, hp⟩ | ⟨hev, -⟩ :=
        (effect hs).progress k
      · rw [hp]
        exact ⟨rfl, rfl⟩
      · cases hev
      · cases hev
      · rw [hp]
        exact ⟨rfl, rfl⟩
      · cases hev
    exact h.step_still he.mem he.phase (by rw [he.calls]) hprog.1 hprog.2
  | finished t op r => cases hu; exact h.step_finished hg hs
  | crashed => cases hu

/-- While the process comes up, nothing is tracked. -/
theorem step_down {f' : Option Pod} (h : Tracking k f s) (hi : Inv cfg s) (hg : Guard cfg ev s)
    (hs : apply ev s = some s') (hd : s.phase ≠ .up) : Tracking k f' s' := by
  have hcalls : s.ledger.calls (.lifecycle k) = none := by
    cases hc : s.ledger.calls (.lifecycle k) with
    | none => rfl
    | some e => exact absurd (hi.up (by rw [hc]; rfl)) hd
  refine of_idle ?_ ?_
  · obtain ⟨hm, -⟩ | ⟨t, a, rfl, hm, -⟩ | ⟨-, hm, -⟩ := (effect hs).tables <;> rw [hm]
    · exact h.down hd
    · rw [Section.pods_other fun ha => ?_]
      · exact h.down hd
      · -- the sections on a Pod belong to its queue, and the queues run once the process is up
        have ht : t = .lifecycle k := hg.2.queue (by cases a <;> first | exact ha | cases ha)
        subst ht
        exact hd hg.1
    · rfl
  · obtain hc | ⟨op, rfl, -⟩ | ⟨hc, -⟩ := (effect hs).calls (.lifecycle k)
    · exact hc.trans hcalls
    · obtain ⟨ht, -⟩ | ⟨-, hup, -⟩ := apply_started hs
      · cases ht
      · exact absurd hup hd
    · exact hc

/-- **One step keeps the tracking of every key.** -/
theorem step (h : Tracking k f s) (hi : Inv cfg s) (hg : Guard cfg ev s) (hs : apply ev s = some s')
    (hD : Disciplined ev s) (hC : SparesTracked ev s) : Tracking k (noteFailure k f ev) s' := by
  by_cases hup : s.phase = .up
  · cases hu : ev.tid with
    | none =>
      cases ev with
      | crashed =>
        simp only [apply, hup, reduceCtorEq, if_false, Option.some.injEq] at hs
        subst hs
        exact of_idle rfl rfl
      | _ => cases hu
    | some u =>
      by_cases hne : u = .lifecycle k
      · subst hne
        exact h.step_own hi hg hs hD hC hu hup
      · exact h.step_other hi hg hs hC hup hu hne
  · exact h.step_down hi hg hs hup

end Tracking

/-! ## Runs -/

section Results

variable {file : File} {tr : List Ev}
  {x : Interleave.Config State Memory Section Request Reply Tid Op Outcome}

theorem Runs.tracking (h : Runs cfg file tr x)
    (hD : (machine cfg).Along Disciplined (State.initial file) tr)
    (hC : (machine cfg).Along SparesTracked (State.initial file) tr) (k : Key) :
    Tracking k (failedCreate k tr) x.shared :=
  h.guarded.induct_along (sound cfg) (inv_initial cfg file)
    (J := fun tr s => Tracking k (failedCreate k tr) s) (.initial file)
    (fun _ _ _ _ hc hi hj hg hs => by
      rw [failedCreate_snoc]
      exact hj.step hi hg hs hc.1 hc.2) (hD.and hC)

/-- **A tracked Pod is backed, and a failed create is retried**, if no verification ends the row of
a tracked key.  A tracked key has the row of its Pod.  Where the last call of a key was a create
that failed, the key is untracked, or tracks that Pod with its claim id and a tentative row; and the
update that finds it so is not dropped, if it is for that Pod, and does not stop at recording it. -/
theorem tracked_pod_backed_and_create_retried (h : Runs cfg file tr x)
    (hD : (machine cfg).Along Disciplined (State.initial file) tr)
    (hC : (machine cfg).Along SparesTracked (State.initial file) tr) :
    (∀ k p, x.shared.mem.pods.lookup k = some p →
      ∃ c, x.shared.row k = some c ∧ c.podUID = p.uid) ∧
    (∀ k pod, failedCreate k tr = some pod → x.shared.ledger.calls (.lifecycle k) = none →
      x.shared.mem.pods.lookup k = none ∨ ∃ p, x.shared.mem.pods.lookup k = some p ∧
        p.uid = pod.uid ∧ k ∈ x.shared.mem.tentative ∧ (p.annotations.lookup annClaimID).isSome) ∧
    ∀ k pod pod', failedCreate k tr = some pod → x.shared.Updates (.lifecycle k) pod' →
      (x.shared.ledger.progress k).declined = false →
      k ∈ x.shared.mem.tentative ∧ (pod'.uid = pod.uid → x.shared.mem.podUIDIsCurrent k pod') := by
  refine ⟨fun k p hp => (h.tracking hD hC k).backed hp, fun k pod hf hc => ?_,
    fun k pod pod' hf hu hd => ?_⟩
  · have ht := h.tracking hD hC k
    refine (ht.failed hf (.inl hc)).imp_right ?_
    rintro ⟨p, hp, huid, hten⟩
    exact ⟨p, hp, huid, hten, ht.marked hp hten⟩
  · have ht := h.tracking hD hC k
    obtain hn | ⟨p, hp, huid, hten⟩ := ht.failed hf (.inr ⟨⟨pod', hu⟩, hd⟩)
    · have := ht.updating hu hd
      rw [hn] at this
      cases this
    · refine ⟨hten, fun he => ?_⟩
      simp [Memory.podUIDIsCurrent, hp, huid, he]

/-- A create whose write fails and whose undo fails leaves its Pod tracked, tentative and
annotated. -/
theorem tracked_pod_backed_and_create_retried_of_full_disk : ∃ tr x,
    Runs fullConfig .absent tr x ∧
    failedCreate "ns/p" tr = some (samplePod "p" "u1" []) ∧
    ∃ p c, x.shared.mem.pods.lookup "ns/p" = some p ∧ p.uid = "u1" ∧
      "ns/p" ∈ x.shared.mem.tentative ∧ (p.annotations.lookup annClaimID).isSome ∧
      x.shared.row "ns/p" = some c ∧ c.podUID = "u1" := by
  obtain ⟨tr, x, hrun, hD, hC, hf, hcalls, htracked⟩ := exists_run fullConfig .absent
    (call .boot .new 10 {} ++
      call (.lifecycle "ns/p") (.createPod (samplePod "p" "u1" [])) 17
        { claimed := .ok (sampleResult "s1"), written := .error "disk full",
          released := .error "down" })
    (fun tr s =>
      (machine fullConfig).Along Disciplined (State.initial .absent) tr ∧
      (machine fullConfig).Along SparesTracked (State.initial .absent) tr ∧
      failedCreate "ns/p" tr = some (samplePod "p" "u1" []) ∧
      s.ledger.calls (.lifecycle "ns/p") = none ∧ s.mem.pods.lookup "ns/p" ≠ none)
    (by decide +kernel)
  obtain ⟨hback, hretry, -⟩ := tracked_pod_backed_and_create_retried hrun hD hC
  obtain ⟨p, hp, huid, ht, hann⟩ := (hretry _ _ hf hcalls).resolve_left htracked
  obtain ⟨c, hc, hcu⟩ := hback _ p hp
  exact ⟨tr, x, hrun, hf, p, c, hp, huid, ht, hann, hc, hcu.trans huid⟩

/-- A verification took its snapshot before a create adopted the row, and its listing lacks the
sandbox: the Pod is tracked between calls, and nothing backs it. -/
theorem tracked_pod_unbacked : ∃ tr x,
    Runs fullConfig (.table (sampleFile "ns/p" (sampleClaim "s1" (samplePod "p" "u1" [])))) tr
      x ∧
    (machine fullConfig).Along Disciplined
      (State.initial (.table (sampleFile "ns/p" (sampleClaim "s1" (samplePod "p" "u1" []))))) tr ∧
    x.shared.ledger.calls (.lifecycle "ns/p") = none ∧
    x.shared.mem.pods.lookup "ns/p" = some (samplePod "p" "u1" []) ∧ x.shared.row "ns/p" = none :=
  exists_run fullConfig
    (.table (sampleFile "ns/p" (sampleClaim "s1" (samplePod "p" "u1" []))))
    (call .boot .new 14
        { file := .decoded (sampleFile "ns/p" (sampleClaim "s1" (samplePod "p" "u1" [])))
          listed := .error "down" } ++
      call (.verification 0) .claimVerification 2 {} ++
      call (.lifecycle "ns/p") (.createPod (samplePod "p" "u1" [])) 16
        { listed := .ok [sampleSummary "s1"] } ++
      steps (.verification 0) 2 {})
    (fun tr s => (machine fullConfig).Along Disciplined
        (State.initial (.table (sampleFile "ns/p" (sampleClaim "s1" (samplePod "p" "u1" []))))) tr ∧
      s.ledger.calls (.lifecycle "ns/p") = none ∧
      s.mem.pods.lookup "ns/p" = some (samplePod "p" "u1" []) ∧ s.row "ns/p" = none)
    (by decide +kernel)

end Results

end VkSandbox
