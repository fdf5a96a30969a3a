import VkSandbox.Provider.Journals
import VkSandbox.Properties.Scenario

/-!
# Properties/Leases — Failed only on confirmed expiry

One tick of the lease watch, as its journal shows it:

    asked now      the clock
    read           the candidates: settled, tracked, past their deadline at that clock
    sendList
    sandboxes      the node's listing
    …              for each candidate: a refreshed deadline if listed, else
    read  read       the identity re-check, the callback
    notify           Failed

`LeaseText` says so of every entry a tick makes; the rest of this file reads it back.
-/

namespace VkSandbox

open Interleave Interleave.Prog

variable {cfg : Config} {s s' : State} {t : Tid} {k : Key} {c : Claim} {pod p : Pod} {ev : Ev}
  {l mid : List Entry}

/-! ## The text of a tick -/

/-- A tick that has its listing: the clock it read, what it listed, and the states its first four
events found. -/
structure LeaseTick where
  now : Time
  listed : List SandboxSummary
  clocked : State
  looked : State
  sent : State
  answered : State

namespace LeaseTick

/-- What a tick does until it has its listing. -/
def opening (tick : LeaseTick) (t : Tid) : List Entry :=
  [(.asked t .now tick.now, tick.clocked), (.read t, tick.looked),
    (.asked t .sendList (), tick.sent), (.asked t .sandboxes (.ok tick.listed), tick.answered)]

/-- The claims a tick asks about. -/
def candidates (tick : LeaseTick) : Table Key Claim := tick.looked.mem.candidates tick.now

/-- **A confirmed expiry**, published as `pod`: `c` was the settled claim of `k`, with a tracked Pod
and a deadline not after the clock; the listing did not have it; and at the re-check `k` still held
it and tracked a Pod. -/
structure Confirms (P : Platform) (tick : LeaseTick) (rechecked : State) (k : Key) (c : Claim)
    (pod : Pod) : Prop where
  settled : tick.looked.mem.claimFor k = some c
  tracked : (tick.looked.mem.pods.lookup k).isSome
  expired : c.deadline ≠ 0 ∧ c.deadline ≤ tick.now
  unlisted : c.id ∉ listedIds tick.listed
  held : ∃ cur, rechecked.row k = some cur ∧ cur.id = c.id
  published : ∃ p, rechecked.mem.pods.lookup k = some p ∧ pod = expiredPod P p c

theorem candidates_eq_some {tick : LeaseTick} : tick.candidates.lookup k = some c ↔
    tick.looked.mem.claimFor k = some c ∧ (tick.looked.mem.pods.lookup k).isSome ∧
      c.deadline ≠ 0 ∧ c.deadline ≤ tick.now := by
  simp only [candidates, Memory.lookup_candidates, Memory.claimFor_eq_some, Claim.expired,
    Bool.and_eq_true, decide_eq_true_eq]
  tauto

theorem opening_inj {tick tick' : LeaseTick} {mid mid' : List Entry}
    (h : tick.opening t ++ mid = tick'.opening t ++ mid') : tick = tick' := by
  obtain ⟨now, listed, s₀, s₁, s₂, s₃⟩ := tick
  obtain ⟨now', listed', s₀', s₁', s₂', s₃'⟩ := tick'
  simp only [opening, List.cons_append, List.cons.injEq, Prod.mk.injEq, Event.asked.injEq,
    heq_eq_eq, true_and, Except.ok.injEq] at h
  obtain ⟨⟨rfl, rfl⟩, rfl, rfl, ⟨rfl, rfl⟩, -⟩ := h
  rfl

end LeaseTick

/-- The reply of a listing that failed. -/
def listingFailed : Ev → Bool
  | .asked _ .sandboxes (.error _) => true
  | _ => false

/-- **What each entry of a tick comes after**, with a lister.  Nothing comes after a failed
listing. -/
def LeaseText (P : Platform) (t : Tid) (l : List Entry) (ev : Ev) (_ : State) : Prop :=
  (l.length < 4 ∨ ∃ (tick : LeaseTick) (mid : List Entry), l = tick.opening t ++ mid) ∧
  match ev with
  | .asked _ .sandboxes _ => ∃ now s₀ s₁ s₂,
      l = [(.asked t .now now, s₀), (.read t, s₁), (.asked t .sendList (), s₂)]
  | .asked _ (.notify pod) _ => ∃ (tick : LeaseTick) (mid : List Entry) (s₄ s₅ : State) (k : Key)
      (c : Claim), l = tick.opening t ++ mid ++ [(.read t, s₄), (.read t, s₅)] ∧
        tick.Confirms P s₄ k c pod
  | _ => True

/-- The rows of `keys` that `live` has are refreshed in `l`. -/
def Refreshed (t : Tid) (rows : Table Key Claim) (live : Table String Time) (keys : List Key)
    (l : List Entry) : Prop :=
  ∀ k ∈ keys, ∀ c d, rows.lookup k = some c → live.lookup c.id = some d →
    ∃ s, (.locked t (.refreshDeadline k c.id d), s) ∈ l

theorem Refreshed.cons {rows : Table Key Claim} {live : Table String Time} {key : Key}
    {keys : List Key} {l' : List Entry} (h : Refreshed t rows live keys l)
    (hkey : Refreshed t rows live [key] l') (hsub : l' ⊆ l) :
    Refreshed t rows live (key :: keys) l := by
  rintro k (- | hk) c d hc hd
  · obtain ⟨s, hs⟩ := hkey key List.mem_cons_self c d hc hd
    exact ⟨s, hsub hs⟩
  · exact h k (by assumption) c d hc hd

/-- **The loop of a tick**, from whatever the tick has done before: it may look, refresh a listed
candidate, and notify an unlisted one that its re-check has found again. -/
theorem text_publishLoop {G : List Entry → Ev → State → Prop} {rows : Table Key Claim}
    {live : Table String Time} {pre : List Entry}
    (hread : ∀ mid s, G (pre ++ mid) (.read t) s)
    (hrefresh : ∀ mid s k c d, rows.lookup k = some c → live.lookup c.id = some d →
      G (pre ++ mid) (.locked t (.refreshDeadline k c.id d)) s)
    (hnotify : ∀ mid s₄ s₅ s k c cur p, rows.lookup k = some c → live.lookup c.id = none →
      s₄.row k = some cur → cur.id = c.id → s₄.mem.pods.lookup k = some p →
      G (pre ++ mid ++ [(.read t, s₄), (.read t, s₅)])
        (.asked t (.notify (expiredPod cfg.platform p c)) ()) s)
    (keys : List Key) (mid : List Entry) :
    Text cfg t G (fun l _ => ∃ mid', l = pre ++ mid' ∧ mid ⊆ mid' ∧ Refreshed t rows live keys l)
      (publishLoop cfg rows live keys) (pre ++ mid) := by
  induction keys generalizing mid with
  | nil => exact ⟨mid, rfl, List.Subset.refl _, fun _ hk => by cases hk⟩
  | cons key rest ih =>
    -- the rest of the loop, whatever this iteration has added
    have hnext : ∀ mid' : List Entry, mid ⊆ mid' → Refreshed t rows live [key] (pre ++ mid') →
        Text cfg t G
          (fun l _ => ∃ mid', l = pre ++ mid' ∧ mid ⊆ mid' ∧
            Refreshed t rows live (key :: rest) l)
          (publishLoop cfg rows live rest) (pre ++ mid') := by
      intro mid' hsub hkey
      refine (ih mid').mono ?_
      rintro l - ⟨mid'', hl, hsub', href⟩
      refine ⟨mid'', hl, List.Subset.trans hsub hsub', href.cons hkey ?_⟩
      rw [hl]
      exact List.append_subset.mpr ⟨List.subset_append_left _ _,
        List.Subset.trans hsub' (List.subset_append_right _ _)⟩
    have hadd : ∀ added : List Entry, mid ⊆ mid ++ added := fun _ => List.subset_append_left _ _
    unfold publishLoop
    split
    · next hnone =>
      refine hnext mid (List.Subset.refl _) fun k hk c d hc => ?_
      obtain rfl := List.mem_singleton.mp hk
      rw [hc] at hnone
      cases hnone
    · next c hc =>
      split
      · next d hd =>
        refine Text.enter fun s => ⟨hrefresh mid s key c d hc hd, ?_⟩
        rw [List.append_assoc]
        refine hnext _ (hadd _) fun k hk c' d' hc' hd' => ⟨s, ?_⟩
        obtain rfl := List.mem_singleton.mp hk
        obtain rfl : c = c' := Option.some.inj (hc.symm.trans hc')
        obtain rfl : d = d' := Option.some.inj (hd.symm.trans hd')
        simp
      · next hnd =>
        have hkey : ∀ l, Refreshed t rows live [key] l := fun l k hk c' d' hc' hd' => by
          obtain rfl := List.mem_singleton.mp hk
          obtain rfl : c = c' := Option.some.inj (hc.symm.trans hc')
          rw [hd'] at hnd
          cases hnd
        refine Text.look fun s₄ => ⟨hread mid s₄, ?_⟩
        rw [List.append_assoc]
        split
        · next p cur hfound =>
          have hp : s₄.mem.pods.lookup key = some p := congrArg Prod.fst hfound
          have hcur : s₄.row key = some cur := congrArg Prod.snd hfound
          split
          · next hid =>
            refine Machine.Follows.call
              (P := fun l _ => ∃ added, l = pre ++ (mid ++ added)) ?_ ?_
            · refine Text.look fun s₅ => ⟨hread _ s₅, ?_⟩
              split
              · refine Text.last_request fun _ s₆ _ _ => ⟨?_, ?_⟩
                · have := hnotify mid s₄ s₅ s₆ key c cur p hc hnd hcur hid hp
                  simpa using this
                · exact ⟨[(.read t, s₄), (.read t, s₅),
                    (.asked t (.notify (expiredPod cfg.platform p c)) (), s₆)],
                    by simp⟩
              · exact ⟨[(.read t, s₄), (.read t, s₅)], by simp⟩
            · rintro l - ⟨added, rfl⟩
              exact hnext _ (hadd _) (hkey _)
          · exact hnext _ (hadd _) (hkey _)
        · exact hnext _ (hadd _) (hkey _)

/-- What a tick has done when it returns: it had no candidates, no listing, or every listed
candidate refreshed. -/
def LeaseDone (t : Tid) (l : List Entry) : Prop :=
  ∀ (tick : LeaseTick) (mid : List Entry), l = tick.opening t ++ mid → ∀ k c d,
    tick.candidates.lookup k = some c → (liveDeadlines tick.listed).lookup c.id = some d →
    ∃ s, (.locked t (.refreshDeadline k c.id d), s) ∈ l

theorem leaseDone_of_length (h : l.length < 4) : LeaseDone t l := by
  rintro tick mid rfl
  simp [LeaseTick.opening] at h
  omega

/-- The order of a range loop has every key of its table. -/
theorem mem_of_rangeOver {rows : Table Key Claim} {order : List Key}
    (h : answer t (.rangeOver rows.keys) order s = some s') (hc : rows.lookup k = some c) :
    k ∈ order := by
  simp only [answer] at h
  split at h
  · next hord =>
    rw [← List.mem_toFinset, hord.2]
    exact Finmap.mem_keys.mpr (Finmap.lookup_isSome.mp (Option.isSome_iff_exists.mpr ⟨c, hc⟩))
  · cases h

theorem text_publishExpiredLeases (hl : cfg.lister) :
    Text cfg t (LeaseText cfg.platform t) (fun l _ => LeaseDone t l) (publishExpiredLeases cfg)
      [] := by
  unfold publishExpiredLeases
  refine Text.request fun now s₀ _ _ => ⟨⟨.inl (by simp), trivial⟩, ?_⟩
  refine Text.look fun s₁ => ⟨⟨.inl (by simp), trivial⟩, ?_⟩
  split
  · exact leaseDone_of_length (by simp)
  simp only [hl, Bool.not_true, Bool.false_eq_true, if_false]
  unfold sandboxes
  refine Text.request fun _ s₂ _ _ => ⟨⟨.inl (by simp), trivial⟩, ?_⟩
  refine Text.request fun r s₃ _ _ => ⟨⟨.inl (by simp), now, s₀, s₁, s₂, rfl⟩, ?_⟩
  cases r with
  | error err =>
    rintro tick mid hmid
    simp [LeaseTick.opening] at hmid
  | ok listed =>
    let tick : LeaseTick := ⟨now, listed, s₀, s₁, s₂, s₃⟩
    refine Text.request fun order s₄ _ hs₄ => ⟨⟨.inr ⟨tick, [], by simp [tick, LeaseTick.opening]⟩,
      trivial⟩, ?_⟩
    have hloop : Text cfg t (LeaseText cfg.platform t)
        (fun l _ => ∃ mid', l = tick.opening t ++ mid' ∧ _ ⊆ mid' ∧
          Refreshed t tick.candidates (liveDeadlines tick.listed) order l)
        (publishLoop cfg tick.candidates (liveDeadlines tick.listed) order)
        (tick.opening t ++ [(.asked t (.rangeOver tick.candidates.keys) order, s₄)]) :=
      text_publishLoop (fun mid s => ⟨.inr ⟨tick, mid, rfl⟩, trivial⟩)
      (fun mid s k c d _ _ => ⟨.inr ⟨tick, mid, rfl⟩, trivial⟩)
      (fun mid s₄ s₅ s k c cur p hc hnd hcur hid hp => by
        obtain ⟨hset, htracked, hexp⟩ := LeaseTick.candidates_eq_some.mp hc
        refine ⟨.inr ⟨tick, _, List.append_assoc _ _ _⟩, tick, mid, s₄, s₅, k, c, rfl, hset,
          htracked, hexp, fun hm => ?_, ⟨cur, hcur, hid⟩, p, hp, rfl⟩
        have hsome := (isSome_lookup_liveDeadlines _ _).mpr hm
        rw [hnd] at hsome
        cases hsome)
      order _
    refine Machine.Follows.mono hloop fun l _ ⟨mid', he, _, href⟩ => ?_
    rintro tick' mid hmid k c d hc hd
    obtain rfl : tick = tick' := LeaseTick.opening_inj (by rw [← hmid, he])
    exact href k (mem_of_rangeOver hs₄ hc) c d hc hd

theorem follows_leaseWatch (hl : cfg.lister) (n : ℕ) :
    Follows cfg (.leaseWatch n) (fun _ => LeaseText cfg.platform (.leaseWatch n))
      (fun _ l _ => LeaseDone (.leaseWatch n) l) := by
  intro op s s' h
  obtain ⟨he, -⟩ | hm := mayCall_of_started h
  · cases he
  · cases op with
    | publishExpiredLeases =>
      exact Machine.Follows.call (text_publishExpiredLeases hl) fun _ _ h => h
    | _ => simp [mayCall] at hm

/-! ## What the watch publishes -/

/-- The Pod of a `SandboxLeaseExpired` notification, and the thread that sends it. -/
def notifiedExpired : Ev → Option (Tid × Pod)
  | .asked t (.notify pod) _ =>
    if pod.status.reason = reasonLeaseExpired then some (t, pod) else none
  | _ => none

theorem notifiedExpired_eq_some (h : notifiedExpired ev = some (t, pod)) :
    ev = .asked t (.notify pod) () ∧ pod.status.reason = reasonLeaseExpired := by
  cases ev with
  | asked u e r =>
    cases e with
    | notify pod' =>
      simp only [notifiedExpired] at h
      split at h
      · next hr => cases h; exact ⟨rfl, hr⟩
      · cases h
    | _ => cases h
  | _ => cases h

section Results

variable {file : File} {tr : List Ev}
  {x x' : Interleave.Config State Memory Section Request Reply Tid Op Outcome}

/-- The claim of a confirmed expiry is still settled at the re-check. -/
theorem Runs.confirms_settled (h : Runs cfg file tr x) {n : ℕ} {tick : LeaseTick} {s₄ : State}
    {l₂ : List Entry} (hj : journal cfg file (.leaseWatch n) tr
      = tick.opening (.leaseWatch n) ++ mid ++ (.read (.leaseWatch n), s₄) :: l₂)
    (hconf : tick.Confirms cfg.platform s₄ k c pod) : s₄.mem.settled k := by
  obtain ⟨hset, hrow⟩ := Memory.claimFor_eq_some.mp hconf.settled
  obtain ⟨cur, hcur, hid⟩ := hconf.held
  have hsplit : journal cfg file (.leaseWatch n) tr =
      [(.asked (.leaseWatch n) .now tick.now, tick.clocked)] ++
      (.read (.leaseWatch n), tick.looked) ::
        ((.asked (.leaseWatch n) .sendList (), tick.sent) ::
          (.asked (.leaseWatch n) .sandboxes (.ok tick.listed), tick.answered) :: mid) ++
        (.read (.leaseWatch n), s₄) :: l₂ := hj
  have he : Evolves tick.looked s₄ := h.entries_evolve (t := .leaseWatch n) nofun hsplit
  exact ((he.still_settled hrow hset hcur).resolve_right fun hu => hu.ne_row hrow hid.symm).2

/-- **Every expiry notification is confirmed** by the tick that sends it. -/
theorem Runs.expired_confirmed (hl : cfg.lister) (h : Runs cfg file tr x)
    (hstep : Step (machine cfg) x ev x') (hev : notifiedExpired ev = some (t, pod)) :
    ∃ (tick : LeaseTick) (mid : List Entry) (s₄ s₅ : State) (c : Claim),
      journal cfg file t tr = tick.opening t ++ mid ++ [(.read t, s₄), (.read t, s₅)] ∧
      tick.Confirms cfg.platform s₄ pod.key c pod ∧ s₄.mem.settled pod.key := by
  obtain ⟨rfl, hreason⟩ := notifiedExpired_eq_some hev
  obtain ⟨-, -, -, c₀, p₀, -, ⟨rfl, -⟩ | ⟨-, n, rfl⟩⟩ := (h.next hstep).1
  · simp [runningPod, runningStatus, reasonLeaseExpired] at hreason
  obtain ⟨-, -, -, tick, mid, s₄, s₅, k, c, hj, hconf⟩ := h.asked (follows_leaseWatch hl n) hstep
  obtain ⟨p, hp, rfl⟩ := hconf.published
  have hmem : ((.read (.leaseWatch n), s₄) : Entry) ∈ journal cfg file (.leaseWatch n) tr := by
    rw [hj]
    simp
  have hkey : p.key = k := (h.entry_guard hmem).1.podKey hp
  subst hkey
  exact ⟨tick, mid, s₄, s₅, c, hj, hconf, h.confirms_settled hj hconf⟩

/-- No tick goes on after a failed listing. -/
theorem opening_ne_failed {e : Entry} (he : listingFailed e.1) {e₀ e₁ e₂ : Entry}
    {tick : LeaseTick} : [e₀, e₁, e₂, e] ≠ tick.opening t ++ mid := by
  intro h
  simp only [LeaseTick.opening, List.cons_append, List.cons.injEq] at h
  obtain ⟨-, -, -, rfl, -⟩ := h
  cases he

/-- A tick whose listing failed has done nothing else. -/
theorem Runs.failed_listing (hl : cfg.lister) (h : Runs cfg file tr x) {n : ℕ} {e : Entry}
    (he : e ∈ journal cfg file (.leaseWatch n) tr) (hfail : listingFailed e.1) :
    ∃ now s₀ s₁ s₂, journal cfg file (.leaseWatch n) tr =
      [(.asked (.leaseWatch n) .now now, s₀), (.read (.leaseWatch n), s₁),
        (.asked (.leaseWatch n) .sendList (), s₂), e] := by
  obtain ⟨ev, s⟩ := e
  obtain ⟨l₁, l₂, hj⟩ := List.append_of_mem he
  obtain ⟨op, hop⟩ := h.inCall he
  have htext := h.entry_text (follows_leaseWatch hl n) hop hj
  cases ev with
  | asked u e r =>
    cases e with
    | sandboxes =>
      obtain ⟨-, now, s₀, s₁, s₂, rfl⟩ := htext
      cases l₂ with
      | nil => exact ⟨now, s₀, s₁, s₂, hj⟩
      | cons e' l₂ =>
        -- the entry after it would come after a failed listing
        have hj' : journal cfg file (.leaseWatch n) tr =
            ([(.asked (.leaseWatch n) .now now, s₀), (.read (.leaseWatch n), s₁),
              (.asked (.leaseWatch n) .sendList (), s₂), (.asked u .sandboxes r, s)] : List Entry)
              ++ (e'.1, e'.2) :: l₂ := by simp [hj]
        obtain hlen | ⟨tick, mid, hopen⟩ := (h.entry_text (follows_leaseWatch hl n) hop hj').1
        · simp at hlen
        · exact absurd hopen (opening_ne_failed hfail)
    | _ => cases hfail
  | _ => cases hfail

/-- Reading the clock, looking at the tables and listing the node change neither tables nor disk. -/
def harmless : Ev → Bool
  | .read _ | .asked _ .now _ | .asked _ .sendList _ | .asked _ .sandboxes _ => true
  | _ => false

theorem harmless_keeps (hev : harmless ev) (h : apply ev s = some s') :
    s'.mem = s.mem ∧ s'.disk = s.disk := by
  cases ev with
  | read u => cases h; exact ⟨rfl, rfl⟩
  | asked u e r =>
    cases e with
    | now | sendList | sandboxes =>
      have hans : Answered _ s s' := answered (t := u) (r := r) h
      exact ⟨hans.mem, hans.disk nofun nofun⟩
    | _ => cases hev
  | _ => cases hev

theorem harmless_of_listingFailed (h : listingFailed ev) : harmless ev := by
  cases ev with
  | asked u e r =>
    cases e with
    | sandboxes => rfl
    | _ => cases h
  | _ => cases h

/-- After a failed listing a tick only returns. -/
theorem Runs.finished_of_failed_listing (hl : cfg.lister) (h : Runs cfg file tr x) {n : ℕ}
    {e : Entry} (he : e ∈ journal cfg file (.leaseWatch n) tr) (hfail : listingFailed e.1)
    (hstep : Step (machine cfg) x ev x') (htid : ev.tid = some (.leaseWatch n)) :
    ∃ op r, ev = .finished (.leaseWatch n) op r := by
  obtain ⟨now, s₀, s₁, s₂, hj⟩ := h.failed_listing hl he hfail
  have hongoing : ¬ ((journal cfg file (.leaseWatch n) tr).length < 4 ∨
      ∃ (tick : LeaseTick) (mid : List Entry),
        journal cfg file (.leaseWatch n) tr = tick.opening (.leaseWatch n) ++ mid) := by
    rw [hj]
    rintro (hlen | ⟨tick, mid, hopen⟩)
    · simp at hlen
    · exact opening_ne_failed hfail hopen
  have hnext : ∀ {ev}, (∃ op, InCall x (.leaseWatch n) op ∧
      LeaseText cfg.platform (.leaseWatch n) (journal cfg file (.leaseWatch n) tr) ev x.shared) →
      ∃ op r, ev = .finished (.leaseWatch n) op r := fun ⟨_, _, htext⟩ => absurd htext.1 hongoing
  cases ev with
  | read u => cases htid; exact hnext (h.read (follows_leaseWatch hl n) hstep)
  | locked u a => cases htid; exact hnext (h.locked (follows_leaseWatch hl n) hstep)
  | asked u e r => cases htid; exact hnext (h.asked (follows_leaseWatch hl n) hstep)
  | finished u op r => cases htid; exact ⟨op, r, rfl⟩
  | crashed => cases htid
  | started u op =>
    cases htid
    cases hstep with
    | started hidle =>
      have hnone : journal cfg file (.leaseWatch n) tr = [] := Run.journal_idle h hidle
      rw [hnone] at he
      cases he

/-- A candidate the listing has is never notified. -/
theorem Runs.listed_not_notified (hl : cfg.lister) (h : Runs cfg file tr x) {n : ℕ}
    {tick : LeaseTick}
    (hj : journal cfg file (.leaseWatch n) tr = tick.opening (.leaseWatch n) ++ mid)
    (hc : tick.candidates.lookup k = some c) (hlisted : c.id ∈ listedIds tick.listed)
    (hmem : ((.asked (.leaseWatch n) (.notify pod) (), s) : Entry) ∈
      journal cfg file (.leaseWatch n) tr) : pod.key ≠ k := by
  rintro rfl
  obtain ⟨l₁, l₂, hj'⟩ := List.append_of_mem hmem
  obtain ⟨op, hop⟩ := h.inCall hmem
  obtain ⟨-, tick', mid', s₄, s₅, k', c', rfl, hconf⟩ :=
    h.entry_text (follows_leaseWatch hl n) hop hj'
  have hopen : tick.opening (.leaseWatch n) ++ mid = tick'.opening (.leaseWatch n) ++
      (mid' ++ [(.read (.leaseWatch n), s₄), (.read (.leaseWatch n), s₅)] ++
        (.asked (.leaseWatch n) (.notify pod) (), s) :: l₂) := by
    rw [← hj, hj']
    simp
  obtain rfl : tick = tick' := LeaseTick.opening_inj hopen
  -- the notified Pod was tracked under its own key
  obtain ⟨p, hp, rfl⟩ := hconf.published
  have hread : ((.read (.leaseWatch n), s₄) : Entry) ∈ journal cfg file (.leaseWatch n) tr := by
    rw [hj']
    simp
  have hkey : p.key = k' := (h.entry_guard hread).1.podKey hp
  subst hkey
  obtain ⟨hset, -⟩ := LeaseTick.candidates_eq_some.mp hc
  obtain rfl : c = c' := Option.some.inj (hset.symm.trans hconf.settled)
  exact hconf.unlisted hlisted

/-- **Failed is published only on confirmed expiry.**  With a lister: a `SandboxLeaseExpired`
notification ends a tick's opening and re-check, in which its claim was seen settled, tracked and
past its deadline at the tick's clock, then missing from a listing sent after that, and at the last
look at the tables still held, and settled, with a Pod tracked.  A tick whose listing fails has only
read, and returns.  A tick that returns has notified nothing about a candidate the listing had, and
has given it the listed deadline if its row still was that claim. -/
theorem failed_only_on_confirmed_expiry (hl : cfg.lister) (h : Runs cfg file tr x)
    (hstep : Step (machine cfg) x ev x') :
    (∀ t pod, notifiedExpired ev = some (t, pod) →
      ∃ (tick : LeaseTick) (mid : List Entry) (s₄ s₅ : State) (c : Claim),
        journal cfg file t tr = tick.opening t ++ mid ++ [(.read t, s₄), (.read t, s₅)] ∧
        tick.Confirms cfg.platform s₄ pod.key c pod ∧ s₄.mem.settled pod.key) ∧
    (∀ n, ev.tid = some (.leaseWatch n) →
      ∀ e ∈ journal cfg file (.leaseWatch n) tr, listingFailed e.1 →
      (∃ op r, ev = .finished (.leaseWatch n) op r) ∧
      (∃ now s₀ s₁ s₂, journal cfg file (.leaseWatch n) tr =
        [(.asked (.leaseWatch n) .now now, s₀), (.read (.leaseWatch n), s₁),
          (.asked (.leaseWatch n) .sendList (), s₂), e]) ∧
      ∀ e ∈ journal cfg file (.leaseWatch n) tr, ∀ s', apply e.1 e.2 = some s' →
        s'.mem = e.2.mem ∧ s'.disk = e.2.disk) ∧
    ∀ n op r, ev = .finished (.leaseWatch n) op r →
      ∀ (tick : LeaseTick) (mid : List Entry),
        journal cfg file (.leaseWatch n) tr = tick.opening (.leaseWatch n) ++ mid →
      ∀ k c d, tick.candidates.lookup k = some c →
        (liveDeadlines tick.listed).lookup c.id = some d →
        (∀ pod s, (.asked (.leaseWatch n) (.notify pod) (), s) ∈
            journal cfg file (.leaseWatch n) tr →
          pod.key ≠ k) ∧
        ∃ s, (.locked (.leaseWatch n) (.refreshDeadline k c.id d), s) ∈
            journal cfg file (.leaseWatch n) tr ∧
          ∀ cur, s.row k = some cur → cur.id = c.id →
            (s.entered (.refreshDeadline k c.id d)).row k = some { cur with deadline := d } := by
  refine ⟨fun t pod hev => h.expired_confirmed hl hstep hev, fun n htid e he hfail => ?_, ?_⟩
  · obtain ⟨now, s₀, s₁, s₂, hj⟩ := h.failed_listing hl he hfail
    refine ⟨h.finished_of_failed_listing hl he hfail hstep htid, ⟨now, s₀, s₁, s₂, hj⟩, ?_⟩
    intro e' he' s' ha
    refine harmless_keeps ?_ ha
    rw [hj] at he'
    simp only [List.mem_cons, List.not_mem_nil, or_false] at he'
    obtain rfl | rfl | rfl | rfl := he'
    · rfl
    · rfl
    · rfl
    · exact harmless_of_listingFailed hfail
  · rintro n op r rfl tick mid hj k c d hc hd
    have hlisted : c.id ∈ listedIds tick.listed :=
      (isSome_lookup_liveDeadlines _ _).mp (Option.isSome_iff_exists.mpr ⟨d, hd⟩)
    refine ⟨fun pod s hmem => h.listed_not_notified hl hj hc hlisted hmem, ?_⟩
    obtain ⟨s, hs⟩ := h.finished (follows_leaseWatch hl n) hstep tick mid hj k c d hc hd
    refine ⟨s, hs, fun cur hcur hid => ?_⟩
    exact Memory.row_refreshDeadline.mpr ⟨cur, hcur, by simp [hid]⟩

end Results

/-- A lease that ends at six seconds. -/
def shortLease : ClaimResult := { sampleResult "s" with deadline := 6 * second }

/-- A Pod is created, its lease ends, the node forgets it, and a tick comes to its notification. -/
def lapsedLease : Schedule :=
  call .boot .new 5 {} ++
  call .controller .notifyPods 2 {} ++
  call (.lifecycle "ns/p") (.createPod (samplePod "p" "uid-1" [])) 14
    { claimed := .ok shortLease } ++
  call (.leaseWatch 0) .publishExpiredLeases 7 { now := 9 * second, order := ["ns/p"] }

theorem failed_only_on_confirmed_expiry_of_lapsed_lease :
    ∃ tr x ev x', Runs statelessConfig .absent tr x ∧ Step (machine statelessConfig) x ev x' ∧
      ∃ pod, notifiedExpired ev = some (.leaseWatch 0, pod) ∧
      ∃ (tick : LeaseTick) (mid : List Entry) (s₄ s₅ : State) (c : Claim),
        journal statelessConfig .absent (.leaseWatch 0) tr = tick.opening (.leaseWatch 0) ++ mid
          ++ [(.read (.leaseWatch 0), s₄), (.read (.leaseWatch 0), s₅)] ∧
        tick.Confirms statelessConfig.platform s₄ pod.key c pod ∧ s₄.mem.settled pod.key := by
  obtain ⟨tr, x, ev, x', h, hstep, hev⟩ := exists_step statelessConfig .absent lapsedLease
    (.move (.leaseWatch 0) (World.reply {}))
    (fun _ _ ev => (notifiedExpired ev).any (·.1 = .leaseWatch 0) = true) (by decide +kernel)
  obtain ⟨⟨t, pod⟩, hn, ht⟩ := (Option.any_eq_true _ _).mp hev
  obtain rfl : t = .leaseWatch 0 := of_decide_eq_true ht
  exact ⟨tr, x, ev, x', h, hstep, pod, hn,
    (failed_only_on_confirmed_expiry rfl h hstep).1 _ pod hn⟩

end VkSandbox
