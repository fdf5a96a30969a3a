import VkSandbox.Provider.Saving

/-!
# Provider/Lifecycle — `CreatePod`, `UpdatePod` and `DeletePod` meet their guards

The calls of one key's queue, followed through their text.  `Serving` is what a create or update
knows all along; `Bound` is what it knows once its Pod has a sandbox, by adoption or by a commit,
and it is what a Running notification and a nil return need.
-/

namespace VkSandbox

open Interleave Interleave.Prog

variable {cfg : Config} {k : Key} {pod : Pod} {id : String} {c : Claim} {s s₁ s' : State}

/-! ## What the queue of a key knows -/

/-- A create or update of `pod` is running. -/
structure Serving (k : Key) (pod : Pod) (s : State) : Prop where
  live : s.Live (.lifecycle k)
  key : pod.key = k
  serves : s.Serves (.lifecycle k) pod
  free : s.saveMu ≠ some (.lifecycle k)
  inHand : (s.ledger.progress k).inHand = none

theorem Serving.creating (h : Serving k pod s) : s.Creating (.lifecycle k) :=
  fun _ _ => ⟨pod, h.serves⟩

theorem State.Serves.not_deletes {t : Tid} (h : s.Serves t pod) (pod' : Pod) :
    ¬ s.Deletes t pod' := by
  rintro ⟨n', hd⟩
  obtain ⟨n, hn | hn⟩ := h <;> rw [hd] at hn <;> cases hn

theorem State.Deletes.unique {t : Tid} {pod' : Pod} (h : s.Deletes t pod) (h' : s.Deletes t pod') :
    pod = pod' := by
  obtain ⟨n, hn⟩ := h
  obtain ⟨n', hn'⟩ := h'
  rw [hn] at hn'
  cases hn'
  rfl

theorem State.Serves.congr (h : s.Serves (.lifecycle k) pod)
    (hc : s'.ledger.calls (.lifecycle k) = s.ledger.calls (.lifecycle k)) :
    s'.Serves (.lifecycle k) pod := by
  obtain ⟨n, h⟩ := h
  exact ⟨n, by rwa [hc]⟩

theorem State.Serves.isSome (h : s.Serves (.lifecycle k) pod) :
    (s.ledger.calls (.lifecycle k)).isSome := by
  obtain ⟨n, h | h⟩ := h <;> rw [h] <;> rfl

namespace Serving

theorem quiet (h : Serving k pod s) (q : Quiet (.lifecycle k) s s') : Serving k pod s' where
  live := q.live h.live
  key := h.key
  serves := h.serves.congr q.calls
  free := q.free h.free
  inHand := by rw [(q.own k rfl).progress]; exact h.inHand

theorem calm (h : Serving k pod s) (hc : Calm (.lifecycle k) s s') : Serving k pod s' :=
  h.quiet hc.quiet

/-- A section of the queue that does not touch the hand. -/
theorem entered {a : Section} (h : Serving k pod s)
    (hh : ((s.entered a).ledger.progress k).inHand = none) : Serving k pod (s.entered a) where
  live := h.live
  key := h.key
  serves := h.serves
  free := h.free
  inHand := hh

end Serving

theorem Own.podUIDIsCurrent (h : Own k s s') (pod : Pod) :
    s'.mem.podUIDIsCurrent k pod = s.mem.podUIDIsCurrent k pod := by
  simp only [Memory.podUIDIsCurrent, h.pods]

theorem State.Undecided.quiet (h : s.Undecided k) (q : Quiet (.lifecycle k) s s') :
    s'.Undecided k := by
  refine ⟨by rw [(q.own k rfl).progress]; exact h.1, fun pod ⟨n, hn⟩ => ?_⟩
  obtain ⟨ht, hcur⟩ := h.2 pod ⟨n, by rw [← q.calls]; exact hn⟩
  exact ⟨(q.own k rfl).tentative.mpr ht, by rw [(q.own k rfl).podUIDIsCurrent]; exact hcur⟩

/-- A create or update that has not changed its row yet. -/
structure Untouched (k : Key) (pod : Pod) (s : State) : Prop extends Serving k pod s where
  dirty : (s.ledger.progress k).dirty = false

theorem Untouched.quiet (h : Untouched k pod s) (q : Quiet (.lifecycle k) s s') :
    Untouched k pod s' where
  toServing := h.toServing.quiet q
  dirty := by rw [(q.own k rfl).progress]; exact h.dirty

/-- `CreatePod` has not changed its row yet. -/
structure Fresh (k : Key) (pod : Pod) (s : State) : Prop extends Untouched k pod s where
  undecided : s.Undecided k

theorem Fresh.quiet (h : Fresh k pod s) (q : Quiet (.lifecycle k) s s') : Fresh k pod s' where
  toUntouched := h.toUntouched.quiet q
  undecided := h.undecided.quiet q

/-- A row that is gone, or not durable, awaits no write. -/
theorem State.CaughtUp.of_gone (h : s.row k = none ∨ k ∈ s.mem.tentative) : s.CaughtUp cfg k := by
  intro _ _ hrow ht
  rw [h.resolve_right ht] at hrow
  cases hrow

/-- The rows a section leaves are rows of this process. -/
theorem Inv.showed_entered (hi : Inv cfg s) {a : Section} (h : (s.entered a).row k = some c) :
    (s.entered a).Showed k c :=
  ⟨_, ⟨s.instant + 1, hi.born.trans (Nat.le_succ _), (s.entered a).memAt_instant⟩, h⟩

/-- The Pod has its sandbox: the row is settled and bound to it, or a listing has ended it. -/
structure Bound (cfg : Config) (k : Key) (pod : Pod) (id : String) (s : State) : Prop where
  serving : Serving k pod s
  bound : (s.ledger.progress k).bound = some id
  tracked : ∃ p, s.mem.pods.lookup k = some p ∧ p.uid = pod.uid
  settled : s.mem.settled k
  row : (∃ c, s.row k = some c ∧ c.id = id ∧ c.BoundTo pod) ∨
    s.row k = none ∧ id ∈ s.ledger.missed ∧ id ∈ s.ledger.loaded
  seen : ∃ m c, s.Seen m ∧ m.claimFor k = some c ∧ c.id = id
  vouched : cfg.lister → id ∈ s.ledger.loaded → id ∈ s.ledger.vouched

theorem Memory.claimFor_eq_some {m : Memory} :
    m.claimFor k = some c ↔ m.settled k ∧ m.claims.lookup k = some c := by
  unfold claimFor
  split <;> simp [*]

theorem Claim.BoundTo.deadline (h : c.BoundTo pod) (d : Time) :
    ({ c with deadline := d } : Claim).BoundTo pod := ⟨h.podUID, h.authority, h.owner⟩

namespace Bound

theorem quiet (h : Bound cfg k pod id s) (q : Quiet (.lifecycle k) s s') :
    Bound cfg k pod id s' where
  serving := h.serving.quiet q
  bound := by rw [(q.own k rfl).progress]; exact h.bound
  tracked := by rw [(q.own k rfl).pods]; exact h.tracked
  settled := by
    obtain ⟨ht, hq⟩ := Memory.settled_eq_true.mp h.settled
    exact Memory.settled_eq_true.mpr ⟨fun h => ht ((q.own k rfl).tentative.mp h),
      fun h => hq ((q.own k rfl).quarantined h)⟩
  row := by
    obtain ⟨c, hc, rfl, hb⟩ | ⟨hn, hl, hd⟩ := h.row
    · obtain ⟨d, hd⟩ | ⟨hn, hwhy⟩ := (q.own k rfl).kept hc
      · exact .inl ⟨_, hd, rfl, hb.deadline d⟩
      · refine .inr ⟨hn, hwhy.resolve_right fun hp => ?_⟩
        obtain ⟨p, hp', -⟩ := h.tracked
        rw [hp] at hp'
        cases hp'
    · exact .inr ⟨(q.own k rfl).empty hn, q.evolves.missed hl, by rw [q.evolves.loaded]; exact hd⟩
  seen := by
    obtain ⟨m, c, hm, hrest⟩ := h.seen
    exact ⟨m, c, q.evolves.seen hm, hrest⟩
  vouched := fun hl hd => q.evolves.vouched (h.vouched hl (by rwa [q.evolves.loaded] at hd))

/-- **A bound Pod may be notified Running.** -/
theorem notify (h : Bound cfg k pod id s) (hid : c.id = id) (hc : s.Showed k c) :
    AskGuard cfg s (.lifecycle k) (.notify (runningPod pod c)) () := by
  have hkey : (runningPod pod c).key = k := h.serving.key
  refine ⟨fun hl c' hc' hd => ?_, fun _ => ⟨id, ?_⟩, c, pod, by rw [hkey]; exact hc,
    .inl ⟨rfl, by rw [hkey]⟩⟩
  · rw [hkey] at hc'
    obtain ⟨c₁, h₁, rfl, -⟩ | ⟨hn, -⟩ := h.row
    · obtain rfl : c₁ = c' := Option.some.inj (h₁.symm.trans hc')
      exact h.vouched hl hd
    · rw [hc'] at hn
      cases hn
  · rw [hkey]
    refine ⟨?_, rfl, h.seen, h.row.imp_left ?_, h.vouched⟩
    · rw [← hkey, ← hid]
      simp [runningEntry, runningPod, runningStatus, podWithClaim]
    · rintro ⟨c₁, h₁, he₁, -⟩
      exact ⟨c₁, Memory.claimFor_eq_some.mpr ⟨h.settled, h₁⟩, he₁⟩

end Bound

theorem wp_pushRunning (h : Bound cfg k pod id s) (hid : c.id = id) (hc : s.Showed k c) :
    Wp cfg (.lifecycle k) (pushRunning pod c) (fun _ s' => Quiet (.lifecycle k) s s') s :=
  wp_notify h.serving.live fun _ q _ => (h.quiet q).notify hid (q.evolves.showed hc)

/-- What a create leaves behind when it returns. -/
structure Created (cfg : Config) (k : Key) (pod : Pod) (r : Except ProviderError Unit) (s : State) :
    Prop where
  serving : Serving k pod s
  ok : r = .ok () → ∃ id, CreatedGuard cfg s k pod id
  failed : ∀ err, r = .error err → FailedGuard s k pod
  caught : (s.ledger.progress k).dirty = true → s.CaughtUp cfg k

/-- A create that failed before it changed its row. -/
theorem Fresh.created (h : Fresh k pod s) (err : ProviderError)
    (hwhy : ann pod annRuntime runtimeSandboxd ≠ runtimeSandboxd ∨ s.ledger.listFailed = true) :
    Created cfg k pod (.error err) s :=
  ⟨h.toServing, nofun, fun _ _ => .inl ⟨hwhy, h.undecided⟩,
    fun hd => by rw [h.dirty] at hd; cases hd⟩

/-- The Pod is bound and its row written: publish it and return nil. -/
theorem wp_publish (h : Bound cfg k pod id s) (hid : c.id = id) (hc : s.Showed k c)
    (hsaved : s.ledger.writeFailed = false → cfg.statePath →
      ∃ n, s.disk.instant = some n ∧ (s.ledger.progress k).touched ≤ n) :
    Wp cfg (.lifecycle k) (do pushRunning pod c; return .ok ()) (Created cfg k pod) s := by
  refine Outline.wp_call (wp_pushRunning h hid hc) fun _ s₁ q₁ => ?_
  refine Wp.ret (q₁.live h.serving.live) fun s₂ h₂ _ => ?_
  have q := q₁.trans h₂.quiet
  have hb := h.quiet q
  have hcaught : cfg.statePath → s₂.ledger.writeFailed = false →
      ∃ n, s₂.disk.instant = some n ∧ (s₂.ledger.progress k).touched ≤ n := fun hp hw => by
    obtain ⟨n, hn, hle⟩ := hsaved (q.evolves.writeFailed hw) hp
    obtain ⟨n', hn', hle'⟩ := q.evolves.disk hn
    rw [(q.own k rfl).progress]
    exact ⟨n', hn', hle.trans hle'⟩
  exact ⟨hb.serving, fun _ => ⟨id, hb.bound, hb.tracked, hb.settled, hb.row, hcaught⟩, nofun,
    fun _ hp hw _ _ => hcaught hp hw⟩

/-! ## `CreatePod`, step by step -/

theorem wp_resolveUnverifiedClaim (h : Fresh k pod s) :
    Wp cfg (.lifecycle k) (resolveUnverifiedClaim cfg k) (fun r s' => Fresh k pod s' ∧
      (r = .ok () → k ∉ s'.mem.quarantined) ∧
      ∀ err, r = .error err → s'.ledger.listFailed = true) s := by
  unfold resolveUnverifiedClaim
  refine Wp.look h.live fun s₁ h₁ hi₁ => ?_
  have q₁ := h₁.quiet.trans (.looked (.lifecycle k) s₁)
  have sv₁ := h.quiet q₁
  split
  · next hq =>
    refine Wp.ret sv₁.live fun s₂ h₂ _ => ⟨sv₁.quiet h₂.quiet, fun _ hk => ?_, nofun⟩
    have := (h₂.own k rfl).quarantined hk
    simp only [Bool.not_eq_true', decide_eq_false_iff_not] at hq
    exact hq this
  · next hq =>
    have hlister : cfg.lister := hi₁.lister (by simpa using hq)
    refine Outline.wp_call (wp_verify sv₁.live sv₁.creating) fun r s₂ v => ?_
    have sv₂ := sv₁.quiet v.quiet
    split
    · next hr =>
      refine Wp.ret sv₂.live fun s₃ h₃ _ => ⟨sv₂.quiet h₃.quiet, fun _ hk => ?_, nofun⟩
      exact v.lifted hr k rfl ((h₃.own k rfl).quarantined hk)
    · next hr =>
      refine Wp.ret sv₂.live fun s₃ h₃ _ => ⟨sv₂.quiet h₃.quiet, nofun, fun _ _ => ?_⟩
      exact h₃.evolves.listFailed (v.failed (by simpa using hr) hlister)

/-- The end of an expired claim that no listing has, or that no lister can ask about. -/
theorem wp_dropExpired (h : Serving k pod s) (hu : s.Undecided k) (hs : s.mem.settled k)
    (hlack : cfg.lister → c.id ∈ s.ledger.missed) :
    Wp cfg (.lifecycle k) (do enter (.dropClaim k c.id) fun _ => (); return .ok ())
      (fun (r : Except ProviderError Unit) s' => (Serving k pod s' ∧ s'.Undecided k) ∧
        (r = .ok () → k ∉ s'.mem.quarantined) ∧
        ∀ err, r = .error err → Fresh k pod s' ∧ s'.ledger.listFailed = true) s := by
  obtain ⟨ht, hq⟩ := Memory.settled_eq_true.mp hs
  refine Wp.enter h.live fun s₁ h₁ hi₁ => ?_
  have hq₁ : k ∉ s₁.mem.quarantined := fun hk => hq ((h₁.own k rfl).quarantined hk)
  have hs₁ : s₁.mem.settled k := Memory.settled_eq_true.mpr
    ⟨fun hk => ht ((h₁.own k rfl).tentative.mp hk), hq₁⟩
  have hg : SectionGuard cfg s₁ (.lifecycle k) (.dropClaim k c.id) :=
    ⟨rfl, hs₁, fun hl => h₁.evolves.missed (hlack hl), (h.calm h₁).creating, hu.quiet h₁.quiet⟩
  have sv₁ := h.calm h₁
  have hprog : (s₁.entered (.dropClaim k c.id)).ledger.progress k
      = { s₁.ledger.progress k with dirty := true, touched := s₁.instant + 1 } :=
    Function.update_self _ _ _
  have sv₂ : Serving k pod (s₁.entered (.dropClaim k c.id)) :=
    sv₁.entered (by rw [hprog]; exact sv₁.inHand)
  have hu₂ : (s₁.entered (.dropClaim k c.id)).Undecided k :=
    ⟨by rw [hprog]; exact hg.2.2.2.2.1, fun pod hp =>
      absurd (hg.2.2.2.2.2 pod hp).1 (Memory.settled_eq_true.mp hs₁).1⟩
  refine ⟨hg, Wp.ret sv₂.live fun s₃ h₃ _ =>
    ⟨⟨sv₂.calm h₃, hu₂.quiet h₃.quiet⟩, fun _ hk => ?_, nofun⟩⟩
  have hk := (h₃.own k rfl).quarantined hk
  obtain ⟨he, -⟩ | ⟨hk, -⟩ := Section.quarantined_back hk
  · cases he
  · exact hq₁ hk

theorem wp_settleExpiredClaim (h : Fresh k pod s) (hq : k ∉ s.mem.quarantined) :
    Wp cfg (.lifecycle k) (settleExpiredClaim cfg k)
      (fun r s' => (Serving k pod s' ∧ s'.Undecided k) ∧
      (r = .ok () → k ∉ s'.mem.quarantined) ∧
      ∀ err, r = .error err → Fresh k pod s' ∧ s'.ledger.listFailed = true) s := by
  have hkeep : ∀ {s₁}, Quiet (.lifecycle k) s s₁ → k ∉ s₁.mem.quarantined := fun q hk =>
    hq ((q.own k rfl).quarantined hk)
  have hdone : ∀ {s₁}, Quiet (.lifecycle k) s s₁ → Wp cfg (.lifecycle k)
      (return .ok ())
      (fun (r : Except ProviderError Unit) s' => (Serving k pod s' ∧ s'.Undecided k) ∧
      (r = .ok () → k ∉ s'.mem.quarantined) ∧
      ∀ err, r = .error err → Fresh k pod s' ∧ s'.ledger.listFailed = true) s₁ := fun q =>
    Wp.ret (q.live h.live) fun s₂ h₂ _ =>
      ⟨⟨(h.quiet (q.trans h₂.quiet)).toServing, h.undecided.quiet (q.trans h₂.quiet)⟩,
        fun _ => hkeep (q.trans h₂.quiet), nofun⟩
  unfold settleExpiredClaim
  refine Wp.look h.live fun s₁ h₁ hi₁ => ?_
  have q₁ := h₁.quiet.trans (.looked (.lifecycle k) s₁)
  cases hc : s₁.mem.claimFor k with
  | none => exact hdone q₁
  | some c =>
    obtain ⟨hs, hrow⟩ := Memory.claimFor_eq_some.mp hc
    refine Wp.request (q₁.live h.live) fun s₂ h₂ hi₂ now s₃ hs₃ => ⟨trivial, ?_⟩
    obtain ⟨rfl, -⟩ := answer_now hs₃
    have q₂ := q₁.trans h₂.quiet
    have q₁₂ : Quiet (.lifecycle k) s₁ s₂ := (Quiet.looked _ s₁).trans h₂.quiet
    have hset : ∀ {s'}, Quiet (.lifecycle k) s₁ s' → s'.mem.settled k := fun q => by
      obtain ⟨ht, hq⟩ := Memory.settled_eq_true.mp hs
      exact Memory.settled_eq_true.mpr ⟨fun hk => ht ((q.own k rfl).tentative.mp hk),
        fun hk => hq ((q.own k rfl).quarantined hk)⟩
    split
    · exact hdone q₂
    split
    · next hno =>
      exact wp_dropExpired (h.quiet q₂).toServing (h.undecided.quiet q₂) (hset q₁₂)
        fun hy => by simp [hy] at hno
    refine Outline.wp_call (wp_sandboxes (q₂.live h.live)) fun r s₃ ⟨q₃, hlisted, _⟩ => ?_
    have q₀₃ := q₂.trans q₃
    have q₁₃ := q₁₂.trans q₃
    cases r with
    | error err =>
      refine Wp.ret (q₀₃.live h.live) fun s₄ h₄ _ => ?_
      have h' := h.quiet (q₀₃.trans h₄.quiet)
      exact ⟨⟨h'.toServing, h'.undecided⟩, nofun, fun _ _ => ⟨h', h₄.evolves.listFailed hlisted⟩⟩
    | ok listed =>
      dsimp only
      split
      · next found hf =>
        refine Wp.enter (q₀₃.live h.live) fun s₄ h₄ hi₄ => ?_
        have q₁₄ := q₁₃.trans h₄.quiet
        have hg : SectionGuard cfg s₄ (.lifecycle k) (.refreshDeadline k c.id found.deadline) :=
          ⟨(h.quiet (q₀₃.trans h₄.quiet)).toServing.creating, fun _ _ _ => hset q₁₄⟩
        exact ⟨hg, hdone (q₀₃.trans (h₄.quiet.trans (.entered hi₄ hg id rfl)))⟩
      · next hf =>
        refine wp_dropExpired (h.quiet q₀₃).toServing (h.undecided.quiet q₀₃) (hset q₁₃) fun _ => ?_
        refine hlisted.1 c.id ?_ fun hm => ?_
        · exact q₁₂.evolves.issuedIds
            (Ledger.mem_issuedIds_of (hi₁.issued s₁.seen_mem (Memory.holds_row hrow)))
        · obtain ⟨row, hrow, he⟩ := List.mem_map.mp hm
          exact absurd he (by simpa using List.find?_eq_none.mp hf row hrow)

/-- The create found nothing to adopt, and goes on to a claim of its own. -/
structure Declined (k : Key) (pod : Pod) (s : State) : Prop where
  serving : Serving k pod s
  declined : (s.ledger.progress k).declined = true
  quarantined : k ∉ s.mem.quarantined
  gone : s.row k = none ∨ k ∈ s.mem.tentative

theorem Declined.quiet (h : Declined k pod s) (q : Quiet (.lifecycle k) s s') :
    Declined k pod s' where
  serving := h.serving.quiet q
  declined := by rw [(q.own k rfl).progress]; exact h.declined
  quarantined := fun hk => h.quarantined ((q.own k rfl).quarantined hk)
  gone := h.gone.imp (q.own k rfl).empty (q.own k rfl).tentative.mpr

theorem Declined.created (h : Declined k pod s) (err : ProviderError) :
    Created cfg k pod (.error err) s :=
  ⟨h.serving, nofun, fun _ _ => .inr ⟨h.declined, h.gone⟩, fun _ => .of_gone h.gone⟩

theorem wp_fail (h : Declined k pod s) (err : ProviderError) :
    Wp cfg (.lifecycle k) (return .error err) (Created cfg k pod) s :=
  Wp.ret h.serving.live fun _ h₁ _ => (h.quiet h₁.quiet).created err

/-- The release of a row that never became durable. -/
theorem wp_releaseTentative (h : Declined k pod s) (hk : k ∈ s.mem.tentative)
    (hc : s.row k = some c) :
    Wp cfg (.lifecycle k) (release c.id c.token) (fun r s' => Declined k pod s' ∧
      k ∈ s'.mem.tentative ∧ s'.row k = some c ∧ (r = .ok () → c.id ∈ s'.ledger.released)) s :=
  Outline.wp_mono (wp_release h.serving.live (fun s₁ h₁ _ => by
    have o := h₁.own k rfl
    exact .undo (c := c) (h.serving.serves.congr h₁.mine.calls) (o.tentative.mpr hk)
      ((o.fixed hk).trans hc)) h.serving.free)
    fun r s' ⟨q, hr⟩ =>
      ⟨h.quiet q, (q.own k rfl).tentative.mpr hk, ((q.own k rfl).fixed hk).trans hc, hr⟩

/-- A withdrawal leaves nothing at its key. -/
theorem SectionGuard.withdrawn {t : Tid} (hg : SectionGuard cfg s t (.withdrawClaim k id)) :
    (s.entered (.withdrawClaim k id)).row k = none := by
  cases hrow : (s.entered (.withdrawClaim k id)).row k with
  | none => rfl
  | some c' =>
    obtain ⟨hc', hne⟩ := Memory.row_withdrawClaim.mp hrow
    exact absurd (hg.2.2.1 c' hc') (hne rfl)

/-- The withdrawal of a released tentative row: nothing is left at the key. -/
theorem wp_withdrawTentative (h : Declined k pod s) (hk : k ∈ s.mem.tentative)
    (hc : s.row k = some c) (hr : c.id ∈ s.ledger.released) (r : Except ProviderError Unit) :
    Wp cfg (.lifecycle k) (do enter (.withdrawClaim k c.id) fun _ => (); return r)
      (fun r' s' => r' = r ∧ Declined k pod s' ∧ s'.row k = none) s := by
  refine Wp.enter h.serving.live fun s₁ h₁ hi₁ => ?_
  have o₁ := h₁.own k rfl
  have hc₁ : s₁.row k = some c := (o₁.fixed hk).trans hc
  have d₁ := h.quiet h₁.quiet
  have hg : SectionGuard cfg s₁ (.lifecycle k) (.withdrawClaim k c.id) :=
    ⟨rfl, h₁.evolves.released hr, fun c' hc' => by rw [Option.some.inj (hc'.symm.trans hc₁)],
      fun _ _ => ⟨o₁.tentative.mpr hk, d₁.declined⟩,
      fun _ hp => absurd hp (d₁.serving.serves.not_deletes _)⟩
  have hprog : (s₁.entered (.withdrawClaim k c.id)).ledger.progress k
      = { s₁.ledger.progress k with dirty := true, touched := s₁.instant + 1 } :=
    Function.update_self _ _ _
  have hn₂ : (s₁.entered (.withdrawClaim k c.id)).row k = none := hg.withdrawn
  have d₂ : Declined k pod (s₁.entered (.withdrawClaim k c.id)) := {
    serving := d₁.serving.entered (by rw [hprog]; exact d₁.serving.inHand)
    declined := by rw [hprog]; exact d₁.declined
    quarantined := fun hk' => by
      obtain ⟨he, -⟩ | ⟨hk', -⟩ := Section.quarantined_back hk'
      · cases he
      · exact d₁.quarantined hk'
    gone := .inl hn₂ }
  exact ⟨hg, Wp.ret d₂.serving.live fun s₃ h₃ _ =>
    ⟨rfl, d₂.quiet h₃.quiet, (h₃.own k rfl).empty hn₂⟩⟩

theorem wp_clearStrandedClaim (h : Declined k pod s) :
    Wp cfg (.lifecycle k) (clearStrandedClaim k) (fun r s' => Declined k pod s' ∧
      (r = .ok () → s'.row k = none)) s := by
  unfold clearStrandedClaim
  refine Wp.look h.serving.live fun s₁ h₁ hi₁ => ?_
  have d₁ := h.quiet (h₁.quiet.trans (.looked (.lifecycle k) s₁))
  split
  · next hnone =>
    have hn₁ : s₁.row k = none := by
      rcases h.gone with hn | ht
      · exact (h₁.own k rfl).empty hn
      · rw [if_pos ((h₁.own k rfl).tentative.mpr ht)] at hnone
        exact hnone
    exact Wp.ret d₁.serving.live fun s₂ h₂ _ =>
      ⟨d₁.quiet h₂.quiet, fun _ => (h₂.own k rfl).empty hn₁⟩
  · next c hsome =>
    split at hsome
    · next ht₁ =>
      refine Outline.wp_call (wp_releaseTentative d₁ ht₁ hsome) fun r s₂ ⟨d₂, ht₂, hc₂, hr⟩ => ?_
      cases r with
      | error err => exact Wp.ret d₂.serving.live fun s₃ h₃ _ => ⟨d₂.quiet h₃.quiet, nofun⟩
      | ok u =>
        exact Outline.wp_mono (wp_withdrawTentative d₂ ht₂ hc₂ (hr rfl) _)
          fun r' s' ⟨_, d', hn⟩ => ⟨d', fun _ => hn⟩
    · cases hsome

theorem wp_undoUnpersistedClaim (h : Declined k pod s) (hk : k ∈ s.mem.tentative)
    (hc : s.row k = some c) (err : ProviderError) :
    Wp cfg (.lifecycle k) (undoUnpersistedClaim cfg k c err) (Created cfg k pod) s := by
  unfold undoUnpersistedClaim
  refine Outline.wp_call (wp_releaseTentative h hk hc) fun r s₁ ⟨d₁, ht₁, hc₁, hr⟩ => ?_
  cases r with
  | error err' => exact wp_fail d₁ _
  | ok u =>
    refine Outline.wp_mono (wp_withdrawTentative d₁ ht₁ hc₁ (hr rfl) _) fun r' s' ⟨he, d', _⟩ => ?_
    rw [he]
    exact d'.created _

/-- `CreatePod` holds an answer it has not recorded. -/
structure Holding (k : Key) (pod : Pod) (res : ClaimResult) (s : State) : Prop where
  live : s.Live (.lifecycle k)
  key : pod.key = k
  serves : s.Serves (.lifecycle k) pod
  free : s.saveMu ≠ some (.lifecycle k)
  inHand : (s.ledger.progress k).inHand = some res
  declined : (s.ledger.progress k).declined = true
  row : s.row k = none
  quarantined : k ∉ s.mem.quarantined

theorem Holding.quiet {res : ClaimResult} (h : Holding k pod res s)
    (q : Quiet (.lifecycle k) s s') : Holding k pod res s' where
  live := q.live h.live
  key := h.key
  serves := h.serves.congr q.calls
  free := q.free h.free
  inHand := by rw [(q.own k rfl).progress]; exact h.inHand
  declined := by rw [(q.own k rfl).progress]; exact h.declined
  row := (q.own k rfl).empty h.row
  quarantined := fun hk => h.quarantined ((q.own k rfl).quarantined hk)

/-- The fresh row, right after the section that recorded it: tentative, and the key's alone. -/
structure Recorded (k : Key) (pod : Pod) (res : ClaimResult) (now : Time) (s : State) : Prop where
  declined : Declined k pod s
  tentative : k ∈ s.mem.tentative
  row : s.row k = some (Claim.ofResult res pod now)
  pods : s.mem.pods.lookup k = some (podWithClaim pod res.id)
  sent : res.id ∉ s.ledger.sent
  loaded : res.id ∉ s.ledger.loaded
  bound : (s.ledger.progress k).bound = some res.id
  touched : (s.ledger.progress k).touched = s.instant

theorem Holding.recorded {res : ClaimResult} (h : Holding k pod res s) (hi : Inv cfg s)
    (now : Time) : Recorded k pod res now
      (s.entered (.insertClaim k pod (Claim.ofResult res pod now))) := by
  obtain ⟨-, -, hsent, -, hu⟩ := hi.hand h.inHand
  have hprog : (s.entered (.insertClaim k pod (Claim.ofResult res pod now))).ledger.progress k
      = { s.ledger.progress k with
          inHand := none, bound := some res.id, dirty := true, touched := s.instant + 1 } :=
    Function.update_self _ _ _
  exact {
    declined := ⟨⟨h.live, h.key, h.serves, h.free, by rw [hprog]⟩, by rw [hprog]; exact h.declined,
      h.quarantined, .inr (Finset.mem_insert_self _ _)⟩
    tentative := Finset.mem_insert_self _ _
    row := Finmap.lookup_insert _
    pods := Finmap.lookup_insert _
    sent := hsent
    loaded := hu.1
    bound := by rw [hprog]
    touched := by rw [hprog]; rfl }

/-- A committed row is its Pod's. -/
theorem Committed.bound {res : ClaimResult} {now : Time} (h : Recorded k pod res now s)
    (hc : Committed cfg k (Claim.ofResult res pod now) s s') : Bound cfg k pod res.id s' := by
  have hload : res.id ∉ s'.ledger.loaded := by rw [hc.evolves.loaded]; exact h.loaded
  obtain ⟨d, hd⟩ : ∃ d, s'.row k = some { Claim.ofResult res pod now with deadline := d } := by
    refine hc.row.resolve_right fun ⟨_, hwhy⟩ => ?_
    rcases hwhy with hwhy | hwhy
    · exact hload hwhy.2
    · rw [h.pods] at hwhy
      cases hwhy
  have hset : s'.mem.settled k := Memory.settled_eq_true.mpr
    ⟨hc.tentative, fun hk => h.declined.quarantined (hc.quarantined hk)⟩
  have sv := h.declined.serving
  exact {
    serving := ⟨hc.evolves.live sv.live, sv.key, sv.serves.congr hc.calls, hc.free, by
      rw [hc.progress]; exact sv.inHand⟩
    bound := by rw [hc.progress]; exact h.bound
    tracked := ⟨_, hc.pods.trans h.pods, rfl⟩
    settled := hset
    row := .inl ⟨_, hd, rfl, rfl, rfl, rfl⟩
    seen := ⟨s'.mem, _, s'.seen_mem, Memory.claimFor_eq_some.mpr ⟨hset, hd⟩, rfl⟩
    vouched := fun _ h => absurd h hload }

theorem wp_recordClaim {res : ClaimResult} (h : Holding k pod res s) :
    Wp cfg (.lifecycle k) (recordClaim cfg pod res) (Created cfg k pod) s := by
  obtain rfl := h.key
  unfold recordClaim
  refine Wp.request h.live fun s₁ h₁ hi₁ now s₂ hs₂ => ⟨trivial, ?_⟩
  obtain ⟨rfl, hnow⟩ := answer_now hs₂
  have hd₁ := h.quiet h₁.quiet
  refine Wp.enter hd₁.live fun s₂ h₂ hi₂ => ?_
  have hd₂ := hd₁.quiet h₂.quiet
  refine ⟨⟨rfl, rfl, hd₂.serves, hd₂.row, res, now, hd₂.inHand, rfl, hnow⟩, ?_⟩
  have hrec := hd₂.recorded hi₂ now
  have hshow := hi₂.showed_entered (a := .insertClaim pod.key pod (.ofResult res pod now)) hrec.row
  have sv := hrec.declined.serving
  refine Outline.wp_call (wp_commitClaim sv.live sv.serves.isSome hrec.tentative hrec.row hrec.sent
    hrec.declined.declined)
    fun r s₄ hr => ?_
  cases r with
  | error err =>
    obtain ⟨q₄, -⟩ := hr
    have o₄ := q₄.own pod.key rfl
    exact wp_undoUnpersistedClaim (hrec.declined.quiet q₄) (o₄.tentative.mpr hrec.tentative)
      ((o₄.fixed hrec.tentative).trans hrec.row) err
  | ok u =>
    refine wp_publish (Committed.bound hrec hr) rfl (Committed.evolves hr |>.showed hshow)
      fun _ hp => ?_
    rw [Committed.progress hr, hrec.touched]
    exact Committed.saved hr hp

theorem claimRef_claimSpec {spec : ClaimSpec} (h : claimSpec pod = .ok spec) :
    spec.claimRef = pod.key := by
  simp only [claimSpec] at h
  split at h
  · cases h
  · split at h
    · cases h
    · cases h; rfl

/-- The claim call of a create that has nothing at its key. -/
theorem wp_claim {spec : ClaimSpec} (h : Declined spec.claimRef pod s)
    (hrow : s.row spec.claimRef = none) :
    Wp cfg (.lifecycle spec.claimRef) (claim spec) (fun r s' => match r with
      | .ok res => Holding spec.claimRef pod res s'
      | .error _ => Declined spec.claimRef pod s') s := by
  unfold claim
  refine Wp.request h.serving.live fun s₁ h₁ hi₁ _ s₂ hs₂ => ?_
  cases hs₂
  have d₁ := h.quiet h₁.quiet
  refine ⟨⟨rfl, (h₁.own _ rfl).empty hrow, d₁.declined⟩, ?_⟩
  refine Wp.last_request d₁.serving.live fun s₃ h₃ hi₃ r s₄ hs₄ => ?_
  have d₃ := d₁.quiet h₃.quiet
  have hn₃ := ((h₁.trans h₃).own _ rfl).empty hrow
  refine ⟨⟨rfl, hn₃, d₃.serving.inHand, d₃.serving.serves.isSome⟩, ?_⟩
  cases r with
  | error err =>
    cases hs₄
    exact ⟨d₃.serving.live, fun s₅ h₅ _ => d₃.quiet h₅.quiet⟩
  | ok res =>
    simp only [answer] at hs₄
    split at hs₄
    · cases hs₄
    · cases hs₄
      refine ⟨d₃.serving.live, fun s₅ h₅ _ => Holding.quiet ?_ h₅.quiet⟩
      refine ⟨d₃.serving.live, d₃.serving.key, d₃.serving.serves, d₃.serving.free, ?_, ?_, hn₃,
        d₃.quarantined⟩
      · simp [State.record]
      · change (Function.update s₃.ledger.progress _ _ _).declined = true
        rw [Function.update_self]
        exact d₃.declined

theorem wp_claimFresh (h : Declined k pod s) (hrow : s.row k = none) :
    Wp cfg (.lifecycle k) (claimFresh cfg pod) (Created cfg k pod) s := by
  unfold claimFresh
  split
  · exact wp_fail h _
  · next spec hspec =>
    obtain rfl : spec.claimRef = k := (claimRef_claimSpec hspec).trans h.serving.key
    refine Outline.wp_call (wp_claim h hrow) fun r s₁ hr => ?_
    cases r with
    | error err => exact wp_fail hr _
    | ok res => exact wp_recordClaim hr

/-! ## The whole of `CreatePod` -/

/-- The section of `adoptExistingClaim`, when it adopts. -/
theorem Serving.adopted (h : Serving k pod s) (hi : Inv cfg s) {c' : Claim}
    (ha : s.mem.adopted k pod = some c') :
    Bound cfg k pod c'.id (s.entered (.adoptExistingClaim k pod)) ∧
    ((s.entered (.adoptExistingClaim k pod)).ledger.progress k).touched
      = (s.entered (.adoptExistingClaim k pod)).instant ∧
    (s.entered (.adoptExistingClaim k pod)).row k = some c' := by
  obtain ⟨c, hc, hs, -, hrun, rfl⟩ := Memory.adopted_eq_some ha
  have hprog : (s.entered (.adoptExistingClaim k pod)).ledger.progress k
      = { s.ledger.progress k with
          bound := some c.id, dirty := true, touched := s.instant + 1 } := by
    refine (Function.update_self _ _ _).trans ?_
    rw [ha]
    rfl
  have hmem : (s.entered (.adoptExistingClaim k pod)).mem = { s.mem with
      claims := s.mem.claims.insert k (c.rebind pod), pods := s.mem.pods.insert k pod } := hrun
  have hset : (s.entered (.adoptExistingClaim k pod)).mem.settled k := by rw [hmem]; exact hs
  have hrow : (s.entered (.adoptExistingClaim k pod)).row k = some (c.rebind pod) := by
    rw [State.row, hmem]
    exact Finmap.lookup_insert _
  refine ⟨?_, by rw [hprog]; rfl, hrow⟩
  exact {
    serving := h.entered (by rw [hprog]; exact h.inHand)
    bound := by rw [hprog]; rfl
    tracked := ⟨pod, by rw [hmem]; exact Finmap.lookup_insert _, rfl⟩
    settled := hset
    row := .inl ⟨_, hrow, rfl, rfl, rfl, rfl⟩
    seen := ⟨_, _, State.seen_mem _, Memory.claimFor_eq_some.mpr ⟨hset, hrow⟩, rfl⟩
    vouched := fun hl hd => hi.vouched hl h.live (c := c) hc hs hd }

/-- The section of `adoptExistingClaim`, when it does not: what is left at the key is stranded. -/
theorem Serving.declines (h : Serving k pod s) (hq : k ∉ s.mem.quarantined)
    (ha : s.mem.adopted k pod = none) :
    Declined k pod (s.entered (.adoptExistingClaim k pod)) := by
  have hprog : (s.entered (.adoptExistingClaim k pod)).ledger.progress k
      = { s.ledger.progress k with
          declined := true, dirty := true, touched := s.instant + 1 } := by
    refine (Function.update_self _ _ _).trans ?_
    rw [ha]
    rfl
  have hq' : k ∉ (s.entered (.adoptExistingClaim k pod)).mem.quarantined := fun hk => by
    obtain ⟨he, -⟩ | ⟨hk, -⟩ := Section.quarantined_back hk
    · cases he
    · exact hq hk
  refine ⟨h.entered (by rw [hprog]; exact h.inHand), by rw [hprog], hq', ?_⟩
  change (Memory.adoptExistingClaim k pod s.mem).claims.lookup k = none ∨
    k ∈ (Memory.adoptExistingClaim k pod s.mem).tentative
  obtain ⟨hn, hrun, -⟩ | ⟨hs, hrun, -⟩ | ⟨c, hc, -, -, hrun, -⟩ | ⟨c, -, -, -, -, he⟩ :=
    Memory.adoptExistingClaim_cases k pod s.mem
  · rw [hrun]
    exact .inl hn
  · rw [hrun]
    exact .inr ((Memory.settled_eq_false.mp hs).resolve_right hq)
  · rw [hrun]
    exact .inl (Finmap.lookup_erase _ _)
  · rw [he] at ha
    cases ha

/-- **`CreatePod` meets its guards**, as a call of its own or inside `UpdatePod`. -/
theorem wp_createPod (h : Fresh k pod s) :
    Wp cfg (.lifecycle k) (createPod cfg pod) (Created cfg k pod) s := by
  obtain rfl := h.key
  unfold createPod
  dsimp only
  split
  · next hrt => exact Wp.ret h.live fun s₁ h₁ _ => (h.quiet h₁.quiet).created _ (.inl hrt)
  have hlist : ∀ err s₁ s₂, Fresh pod.key pod s₁ → s₁.ledger.listFailed = true →
      Rely (.lifecycle pod.key) s₁ s₂ → Created cfg pod.key pod (.error err) s₂ :=
    fun err s₁ s₂ fr hf hr => (fr.quiet (hr fr.live).quiet).created err
      (.inr ((hr fr.live).evolves.listFailed hf))
  refine Outline.wp_orReturn (wp_resolveUnverifiedClaim h)
    (fun err s₁ s₂ hP hr _ => hlist err s₁ s₂ hP.1 (hP.2.2 err rfl) hr) fun _ s₁ hP₁ => ?_
  refine Outline.wp_orReturn (wp_settleExpiredClaim hP₁.1 (hP₁.2.1 rfl))
    (fun err s₁ s₂ hP hr _ => hlist err s₁ s₂ (hP.2.2 err rfl).1 (hP.2.2 err rfl).2 hr)
    fun _ s₂ hP₂ => ?_
  obtain ⟨⟨sv₂, hu₂⟩, hq₂, -⟩ := hP₂
  refine Wp.enter sv₂.live fun s₃ h₃ hi₃ => ?_
  have sv₃ := sv₂.calm h₃
  have hq₃ : pod.key ∉ s₃.mem.quarantined := fun hk => hq₂ rfl ((h₃.own _ rfl).quarantined hk)
  refine ⟨⟨rfl, rfl, sv₃.serves, hq₃, hu₂.quiet h₃.quiet⟩, ?_⟩
  cases ha : s₃.mem.adopted pod.key pod with
  | none =>
    exact Outline.wp_orReturn (wp_clearStrandedClaim (sv₃.declines hq₃ ha))
      (fun err s₁ s₂ hP hr _ => (hP.1.quiet (hr hP.1.serving.live).quiet).created err)
      fun _ s₅ hP => wp_claimFresh hP.1 (hP.2 rfl)
  | some c =>
    obtain ⟨b₄, ht₄, hrow₄⟩ := sv₃.adopted hi₃ ha
    have hshow := hi₃.showed_entered hrow₄
    refine Outline.wp_call (wp_saveState b₄.serving.live b₄.serving.serves.isSome nofun)
      fun _ s₅ ⟨q₅, _, hsaved⟩ => ?_
    refine wp_publish (b₄.quiet q₅.toQuiet) rfl (q₅.evolves.showed hshow) fun hw hp => ?_
    rw [(q₅.own _ rfl).progress, ht₄]
    exact hsaved hw hp

/-! ## `UpdatePod` -/

theorem wp_updatePod (h : Untouched k pod s) (hu : s.Updates (.lifecycle k) pod)
    (hd : (s.ledger.progress k).declined = false) (hb : (s.ledger.progress k).bound = none) :
    Wp cfg (.lifecycle k) (updatePod cfg pod) (fun r s' => Serving k pod s' ∧
      ((s'.ledger.progress k).dirty = true → s'.CaughtUp cfg k) ∧
      (r = .ok () → UpdatedGuard cfg s' k pod) ∧
      ∀ err, r = .error err → FailedGuard s' k pod) s := by
  obtain rfl := h.key
  unfold updatePod
  dsimp only
  refine Wp.look h.live fun s₁ h₁ hi₁ => ?_
  have q₁ := h₁.quiet.trans (.looked (.lifecycle pod.key) s₁)
  have sv₁ := h.quiet q₁
  split
  · next hcur =>
    refine Wp.ret sv₁.live fun s₂ h₂ _ => ?_
    have sv₂ := sv₁.quiet h₂.quiet
    refine ⟨sv₂.toServing, fun hd => ?_, fun _ => .inl ?_, nofun⟩
    · rw [sv₂.dirty] at hd
      cases hd
    rw [(h₂.own _ rfl).podUIDIsCurrent]
    simpa using hcur
  · next hcur =>
    refine Wp.enter sv₁.live fun s₂ h₂ hi₂ => ?_
    have sv₂ := sv₁.quiet h₂.quiet
    have o₂ := (q₁.trans h₂.quiet).own _ rfl
    have hcur₂ : s₂.mem.podUIDIsCurrent pod.key pod := by
      rw [(h₂.own _ rfl).podUIDIsCurrent]
      simpa using hcur
    have sv₃ : Untouched pod.key pod (s₂.entered (.updatePod pod.key pod)) :=
      ⟨sv₂.entered sv₂.inHand, sv₂.dirty⟩
    have hu₂ : s₂.Updates (.lifecycle pod.key) pod := by
      obtain ⟨n, hn⟩ := hu
      exact ⟨n, by rw [(q₁.trans h₂.quiet).calls]; exact hn⟩
    refine ⟨⟨rfl, rfl, hu₂, hcur₂, by rw [o₂.progress]; exact hd⟩, ?_⟩
    split
    · next ht =>
      have hmem : (s₂.entered (.updatePod pod.key pod)).mem = s₂.mem := if_pos (by simpa using ht)
      have hfresh : Fresh pod.key pod (s₂.entered (.updatePod pod.key pod)) := by
        refine ⟨sv₃, by rw [← hb, ← o₂.progress]; rfl, fun pod' ⟨n, hn⟩ => ?_⟩
        obtain ⟨n', hn'⟩ := hu₂
        obtain rfl : pod' = pod := by cases hn.symm.trans hn'; rfl
        rw [hmem]
        exact ⟨by simpa using ht, hcur₂⟩
      refine Outline.wp_mono (wp_createPod hfresh) fun r s' hc =>
        ⟨hc.serving, hc.caught, fun hr => ?_, hc.failed⟩
      exact .inr (.inr (hc.ok hr))
    · next ht =>
      have ht₂ : pod.key ∉ s₂.mem.tentative := by simpa using ht
      refine Wp.ret sv₃.live fun s₄ h₄ _ => ?_
      have sv₄ := sv₃.quiet h₄.quiet
      refine ⟨sv₄.toServing, fun hd => ?_, fun _ => .inr (.inl ?_), nofun⟩
      · rw [sv₄.dirty] at hd
        cases hd
      have o₄ := h₄.own _ rfl
      have hmem : (s₂.entered (.updatePod pod.key pod)).mem
          = { s₂.mem with pods := s₂.mem.pods.insert pod.key pod } := if_neg ht₂
      have hprog : s₄.ledger.progress pod.key = s.ledger.progress pod.key :=
        o₄.progress.trans o₂.progress
      refine ⟨o₄.pods.trans ?_, fun hk => ht₂ ?_, by rw [hprog]; exact hd, by rw [hprog]; exact hb⟩
      · rw [hmem]
        exact Finmap.lookup_insert _
      · have := o₄.tentative.mp hk
        rwa [hmem] at this

/-! ## `DeletePod` -/

/-- A delete of `pod` is running. -/
structure Deleting (k : Key) (pod : Pod) (s : State) : Prop where
  live : s.Live (.lifecycle k)
  key : pod.key = k
  deletes : s.Deletes (.lifecycle k) pod
  free : s.saveMu ≠ some (.lifecycle k)
  inHand : (s.ledger.progress k).inHand = none

namespace Deleting

theorem quiet (h : Deleting k pod s) (q : Quiet (.lifecycle k) s s') : Deleting k pod s' where
  live := q.live h.live
  key := h.key
  deletes := by
    obtain ⟨n, hn⟩ := h.deletes
    exact ⟨n, by rwa [q.calls]⟩
  free := q.free h.free
  inHand := by rw [(q.own k rfl).progress]; exact h.inHand

theorem entered {a : Section} (h : Deleting k pod s)
    (hh : ((s.entered a).ledger.progress k).inHand = none) : Deleting k pod (s.entered a) :=
  ⟨h.live, h.key, h.deletes, h.free, hh⟩

theorem isSome (h : Deleting k pod s) : (s.ledger.calls (.lifecycle k)).isSome := by
  obtain ⟨n, hn⟩ := h.deletes
  rw [hn]
  rfl

theorem not_serves (h : Deleting k pod s) (pod' : Pod) : ¬ s.Serves (.lifecycle k) pod' :=
  fun hs => hs.not_deletes pod h.deletes

end Deleting

/-- What a delete leaves behind when it returns. -/
structure Deleted (cfg : Config) (k : Key) (pod : Pod) (s : State) : Prop extends
    Deleting k pod s where
  caught : (s.ledger.progress k).dirty = true → s.CaughtUp cfg k

/-- The write that ends a delete. -/
theorem Deleting.save (h : Deleting k pod s) (ht : (s.ledger.progress k).touched ≤ s.instant) :
    Wp cfg (.lifecycle k) (do saveState cfg; return .ok ())
      (fun (_ : Except ProviderError Unit) s' => Deleted cfg k pod s') s := by
  refine Outline.wp_call (wp_saveState h.live h.isSome nofun) fun _ s₁ ⟨q₁, _, hsaved⟩ => ?_
  refine Wp.ret (h.quiet q₁.toQuiet).live fun s₂ h₂ _ => ?_
  have q := q₁.toQuiet.trans h₂.quiet
  refine ⟨h.quiet q, fun _ hp hw _ _ => ?_⟩
  obtain ⟨n, hn, hle⟩ := hsaved (h₂.evolves.writeFailed hw) hp
  obtain ⟨n', hn', hle'⟩ := h₂.evolves.disk hn
  rw [(q.own k rfl).progress]
  exact ⟨n', hn', ht.trans (hle.trans hle')⟩

/-- The end of a delete that has not changed its row. -/
theorem Deleting.done (h : Deleting k pod s) (hd : (s.ledger.progress k).dirty = false)
    (r : Except ProviderError Unit) :
    Wp cfg (.lifecycle k) (return r) (fun _ s' => Deleted cfg k pod s') s := by
  refine Wp.ret h.live fun s₁ h₁ _ => ⟨h.quiet h₁.quiet, fun hd' => ?_⟩
  rw [(h₁.own k rfl).progress, hd] at hd'
  cases hd'

/-- While its queue waits, the row of a key keeps its id. -/
theorem Own.same_id (h : Own k s s') {c' : Claim} (hc : s.row k = some c)
    (hc' : s'.row k = some c') :
    c'.id = c.id := by
  obtain ⟨d, hd⟩ | ⟨hn, -⟩ := h.kept hc
  · rw [hc'] at hd
    cases hd
    rfl
  · rw [hc'] at hn
    cases hn

/-- The preserve branch. -/
theorem wp_preserveClaim (h : Deleting k pod s) (hp : (controllerOf pod).isSome)
    (hcur : s.mem.podUIDIsCurrent k pod) (hid : ∀ c', s.row k = some c' → c'.id = id) :
    Wp cfg (.lifecycle k) (do preserveClaim cfg k id (controllerOf pod); return .ok ())
      (fun (_ : Except ProviderError Unit) s' => Deleted cfg k pod s') s := by
  refine Wp.enter h.live fun s₁ h₁ hi₁ => ?_
  have d₁ := h.quiet h₁.quiet
  have o₁ := h₁.own k rfl
  have hprog : (s₁.entered (.preserveClaim k id (controllerOf pod))).ledger.progress k
      = { s₁.ledger.progress k with dirty := true, touched := s₁.instant + 1 } :=
    Function.update_self _ _ _
  refine ⟨⟨rfl, pod, d₁.deletes, d₁.key, rfl, hp, by rw [o₁.podUIDIsCurrent]; exact hcur, ?_,
      d₁.free⟩,
    (d₁.entered (by rw [hprog]; exact d₁.inHand)).save (by rw [hprog]; exact le_rfl)⟩
  intro c' hc'
  cases hc : s.row k with
  | none => rw [o₁.empty hc] at hc'; cases hc'
  | some c => rw [o₁.same_id hc hc', hid c hc]

/-- The withdrawal after an authorised release. -/
theorem wp_withdrawReleased (h : Deleting k pod s) (hr : id ∈ s.ledger.released)
    (hcur : s.mem.podUIDIsCurrent k pod) (hid : ∀ c', s.row k = some c' → c'.id = id) :
    Wp cfg (.lifecycle k) (do enter (.withdrawClaim k id) fun _ => (); saveState cfg; return .ok ())
      (fun (_ : Except ProviderError Unit) s' => Deleted cfg k pod s') s := by
  refine Wp.enter h.live fun s₁ h₁ hi₁ => ?_
  have d₁ := h.quiet h₁.quiet
  have o₁ := h₁.own k rfl
  have hprog : (s₁.entered (.withdrawClaim k id)).ledger.progress k
      = { s₁.ledger.progress k with dirty := true, touched := s₁.instant + 1 } :=
    Function.update_self _ _ _
  refine ⟨⟨rfl, h₁.evolves.released hr, fun c' hc' => ?_, fun p hp => absurd hp (d₁.not_serves p),
    fun p hp => ?_⟩,
    (d₁.entered (by rw [hprog]; exact d₁.inHand)).save (by rw [hprog]; exact le_rfl)⟩
  case refine_2 =>
    obtain rfl := hp.unique d₁.deletes
    rw [o₁.podUIDIsCurrent]
    exact hcur
  cases hc : s.row k with
  | none => rw [o₁.empty hc] at hc'; cases hc'
  | some c => rw [o₁.same_id hc hc', hid c hc]

theorem wp_deletePod (h : Deleting k pod s) (hd : (s.ledger.progress k).dirty = false) :
    Wp cfg (.lifecycle k) (deletePod cfg pod) (fun _ s' => Deleted cfg k pod s') s := by
  obtain rfl := h.key
  unfold deletePod
  dsimp only
  refine Wp.look h.live fun s₁ h₁ hi₁ => ?_
  have q₁ := h₁.quiet.trans (.looked (.lifecycle pod.key) s₁)
  have d₁ := h.quiet q₁
  have hclean : ∀ {s'}, Quiet (.lifecycle pod.key) s s' →
      (s'.ledger.progress pod.key).dirty = false := fun q => by
    rw [(q.own _ rfl).progress]
    exact hd
  split
  · exact d₁.done (hclean q₁) _
  · next hcur =>
    refine Wp.look d₁.live fun s₂ h₂ hi₂ => ?_
    have q₂ := q₁.trans (h₂.quiet.trans (.looked (.lifecycle pod.key) s₂))
    have d₂ := h.quiet q₂
    have hcur₂ : s₂.mem.podUIDIsCurrent pod.key pod := by
      rw [(h₂.own _ rfl).podUIDIsCurrent]
      simpa using hcur
    split
    · next hnone =>
      refine Wp.enter d₂.live fun s₃ h₃ hi₃ => ⟨⟨rfl, (h₃.own _ rfl).empty hnone⟩, ?_⟩
      have d₃ := d₂.quiet h₃.quiet
      have d₄ : Deleting pod.key pod (s₃.entered (.forgetPod pod.key)) := d₃.entered d₃.inHand
      exact d₄.done (hclean (q₂.trans h₃.quiet) :) _
    · next c hc =>
      have hc₂ : s₂.row pod.key = some c := hc
      refine Outline.wp_call (wp_destroyAuthorized d₂.live) fun v s₃ j => ?_
      have d₃ := d₂.quiet j.quiet
      have o₃ : Own pod.key s₂ s₃ := ((Quiet.looked _ s₂).trans j.quiet).own _ rfl
      have hcur₃ : s₃.mem.podUIDIsCurrent pod.key pod := by rw [o₃.podUIDIsCurrent]; exact hcur₂
      have hid₃ : ∀ c', s₃.row pod.key = some c' → c'.id = c.id := fun c' hc' =>
        o₃.same_id hc₂ hc'
      obtain ⟨v, why⟩ := v
      cases v with
      | preserve => exact wp_preserveClaim d₃ (j.preserve rfl) hcur₃ hid₃
      | release =>
        refine Outline.wp_call (wp_release d₃.live (fun s₄ h₄ _ => ?_) d₃.free)
          fun r s₄ ⟨q₄, hr⟩ => ?_
        · -- the claim it releases is the one its last look found
          have e₄ : Evolves s₂ s₄ :=
            ((Quiet.looked _ s₂).trans (j.quiet.trans h₄.quiet)).evolves
          have hat : s₄.ledger.readAt (.lifecycle pod.key) = s₂.instant := by
            rw [h₄.mine.readAt, j.readAt]
            exact Function.update_self _ _ _
          refine .delete (c := c) (d₃.quiet h₄.quiet).deletes rfl ?_ hcur₂ hc
            (h₄.evolves.authorised (j.release rfl))
          rw [hat]
          exact e₄.memAt s₂.memAt_instant
        · have d₄ := d₃.quiet q₄
          cases r with
          | error err => exact d₄.done (hclean (q₂.trans (j.quiet.trans q₄))) _
          | ok u =>
            have o₄ := o₃.trans (q₄.own _ rfl) q₄.evolves
            exact wp_withdrawReleased d₄ (hr rfl) (by rw [o₄.podUIDIsCurrent]; exact hcur₂)
              fun c' hc' => o₄.same_id hc₂ hc'

end VkSandbox
