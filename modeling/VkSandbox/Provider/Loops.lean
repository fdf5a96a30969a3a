import VkSandbox.Provider.Lifecycle

/-!
# Provider/Loops — the background loops and `New` meet their guards

A loop acts on a snapshot it took before slow external calls.  What saves it is that rows only
evolve: a row that still carries the snapshot's id is the same row, and as settled as it was
(`Evolves.still_settled`).  `New` runs alone.
-/

namespace VkSandbox

open Interleave Interleave.Prog

variable {cfg : Config} {t : Tid} {k : Key} {c : Claim} {s s₀ s₁ s' : State}

/-- What every loop is left with when its tick is over. -/
structure Ticking (t : Tid) (s : State) : Prop where
  live : s.Live t
  call : (s.ledger.calls t).isSome
  free : s.saveMu ≠ some t
  loop : ∀ k, t ≠ .lifecycle k

theorem Ticking.creating (h : Ticking t s) : s.Creating t := fun k hk => absurd hk (h.loop k)

theorem Ticking.quiet (h : Ticking t s) (q : Quiet t s s') : Ticking t s' :=
  ⟨q.live h.live, by rw [q.calls]; exact h.call, q.free h.free, h.loop⟩

theorem Ticking.calm (h : Ticking t s) (hc : Calm t s s') : Ticking t s' := h.quiet hc.quiet

/-- The end of a tick. -/
theorem Ticking.done {α : Type} (h : Ticking t s) (a : α) :
    Wp cfg t (Prog.ret a : Code α) (fun _ s' => Ticking t s') s :=
  Wp.ret h.live fun _ h₁ _ => h.calm h₁

/-- **A snapshot row met again** is the same row, still settled, unless the id is a new one. -/
theorem Evolves.still_settled (he : Evolves s₀ s) (hc : s₀.row k = some c)
    (hs : s₀.mem.settled k) {cur : Claim} (hcur : s.row k = some cur) :
    c.Same cur ∧ s.mem.settled k ∨ s₀.Unseen cur.id := by
  obtain ⟨c₁, h₁, hsame, ht, hq⟩ | hu := he.rows hcur
  · obtain rfl : c₁ = c := Option.some.inj (h₁.symm.trans hc)
    obtain ⟨ht₀, hq₀⟩ := Memory.settled_eq_true.mp hs
    exact .inl ⟨hsame, Memory.settled_eq_true.mpr ⟨fun h => ht₀ (ht h), fun h => hq₀ (hq h)⟩⟩
  · exact .inr hu

/-- The id of a snapshot row is no new one. -/
theorem State.Unseen.ne_row {id : String} (hu : s.Unseen id) (hc : s.row k = some c) : c.id ≠ id :=
  hu.2 s.seen_mem (Memory.holds_row hc)

/-! ## Verification and the orphan scan -/

theorem wp_claimVerificationTick (h : Ticking t s) :
    Wp cfg t (claimVerificationTick cfg) (fun _ s' => Ticking t s') s := by
  unfold claimVerificationTick
  refine Outline.wp_call (wp_verify h.live h.creating) fun r s₁ v => ?_
  have h₁ := h.quiet v.quiet
  split
  · exact h₁.done _
  · exact Wp.look h₁.live fun s₂ h₂ _ => ((h₁.calm h₂).quiet (.looked t s₂)).done _

theorem wp_orphanScan (h : Ticking t s) :
    Wp cfg t (orphanScan cfg) (fun _ s' => Ticking t s') s := by
  unfold orphanScan
  split
  · exact h.done _
  refine Outline.wp_call (wp_sandboxes h.live) fun r s₁ ⟨q₁, _⟩ => ?_
  have h₁ := h.quiet q₁
  cases r with
  | error err => exact h₁.done _
  | ok listed =>
    refine Wp.look h₁.live fun s₂ h₂ _ => ?_
    have t₂ := (h₁.calm h₂).quiet (.looked t s₂)
    refine Wp.request t₂.live fun s₃ h₃ _ order s₄ hs₄ => ⟨trivial, ?_⟩
    have hg₃ : AskGuard cfg s₃ t (.rangeOver s₂.mem.claims.keys) order := trivial
    have t₄ := (t₂.calm h₃).quiet (.asked hs₄ hg₃ nofun nofun nofun)
    refine Wp.request t₄.live fun s₅ h₅ _ ids s₆ hs₆ => ⟨trivial, ?_⟩
    have hg₅ : AskGuard cfg s₅ t (.rangeOver _) ids := trivial
    have t₆ := (t₄.calm h₅).quiet (.asked hs₆ hg₅ nofun nofun nofun)
    refine Wp.enter t₆.live fun s₇ h₇ hi₇ => ⟨trivial, ?_⟩
    have hg₇ : ∀ verdicts, SectionGuard cfg s₇ t (.setVerdicts verdicts) := fun _ => trivial
    exact ((t₆.calm h₇).quiet (.entered hi₇ (hg₇ _) id rfl)).done _

/-! ## The lease watch -/

theorem wp_publishLoop {n : ℕ} {now : Time} (live : Table String Time)
    (hup : s₀.phase = .up) (hborn : s₀.ledger.born ≤ s₀.instant) (keys : List Key)
    (h : Ticking (.leaseWatch n) s) (he : Evolves s₀ s) :
    Wp cfg (.leaseWatch n) (publishLoop cfg (s₀.mem.candidates now) live keys)
      (fun _ s' => Ticking (.leaseWatch n) s') s := by
  induction keys generalizing s with
  | nil => exact h.done _
  | cons key rest ih =>
    unfold publishLoop
    split
    · exact ih h he
    · next c hc =>
      obtain ⟨hrow, -, hset, -⟩ := Memory.lookup_candidates.mp hc
      split
      · next d _ =>
        refine Wp.enter h.live fun s₁ h₁ hi₁ => ?_
        have e₁ := he.trans h₁.evolves
        have hg : SectionGuard cfg s₁ (.leaseWatch n) (.refreshDeadline key c.id d) :=
          ⟨(h.calm h₁).creating, fun cur hcur hid =>
            ((e₁.still_settled hrow hset hcur).resolve_right fun hu => hu.ne_row hrow hid.symm).2⟩
        have q₂ := Quiet.entered hi₁ hg id rfl
        exact ⟨hg, ih ((h.calm h₁).quiet q₂) (e₁.trans q₂.evolves)⟩
      · refine Wp.look h.live fun s₁ h₁ hi₁ => ?_
        have q₁ := h₁.quiet.trans (.looked _ s₁)
        have e₁ := he.trans q₁.evolves
        split
        · next pod cur hfound =>
          have hpod : s₁.mem.pods.lookup key = some pod := congrArg Prod.fst hfound
          have hnext : ∀ s₂, Quiet (.leaseWatch n) (s₁.looked (.leaseWatch n)) s₂ →
              Wp cfg (.leaseWatch n) (publishLoop cfg _ live rest)
                (fun _ s' => Ticking (.leaseWatch n) s') s₂ := fun s₂ q₂ =>
            ih (h.quiet (q₁.trans q₂)) (e₁.trans q₂.evolves)
          split
          · refine Outline.wp_call (wp_notify (h.quiet q₁).live fun s₂ q₂ hi₂ => ?_)
              fun _ s₂ q₂ => hnext s₂ q₂
            have e₂ := e₁.trans q₂.evolves
            have hkey : (expiredPod cfg.platform pod c).key = key := hi₁.podKey (p := pod) hpod
            have hshow := e₂.showed ⟨_, ⟨s₀.instant, hborn, s₀.memAt_instant⟩, hrow⟩
            refine ⟨fun hl cur' hcur' hload => ?_, nofun, c, pod, by rwa [hkey], .inr ⟨rfl, n, rfl⟩⟩
            rw [hkey] at hcur'
            obtain ⟨-, hs⟩ | hu := e₂.still_settled hrow hset hcur'
            · exact hi₂.vouched hl (e₂.phase.trans hup) hcur' hs hload
            · exact absurd (by rwa [e₂.loaded] at hload) hu.1
          · exact hnext _ (.refl _ _)
        · exact ih (h.quiet q₁) e₁

theorem wp_publishExpiredLeases {n : ℕ} (h : Ticking (.leaseWatch n) s) :
    Wp cfg (.leaseWatch n) (publishExpiredLeases cfg)
      (fun _ s' => Ticking (.leaseWatch n) s') s := by
  unfold publishExpiredLeases
  refine Wp.request h.live fun s₁ h₁ hi₁ now s₂ hs₂ => ⟨trivial, ?_⟩
  obtain ⟨rfl, -⟩ := answer_now hs₂
  have t₁ := h.calm h₁
  refine Wp.look t₁.live fun s₂ h₂ hi₂ => ?_
  have t₂ := (t₁.calm h₂).quiet (.looked _ s₂)
  have hup : s₂.phase = .up := (t₁.calm h₂).live.eq_up nofun
  have hloop : ∀ (live : Table String Time) s₃,
      Quiet (.leaseWatch n) (s₂.looked (.leaseWatch n)) s₃ →
      Wp cfg (.leaseWatch n)
        (do publishLoop cfg (s₂.mem.candidates now) live
              (← request (.rangeOver (s₂.mem.candidates now).keys)))
        (fun _ s' => Ticking (.leaseWatch n) s') s₃ := by
    intro live s₃ q₃
    refine Wp.request (t₂.quiet q₃).live fun s₄ h₄ hi₄ order s₅ hs₅ => ⟨trivial, ?_⟩
    have hg₄ : AskGuard cfg s₄ (.leaseWatch n) (.rangeOver (s₂.mem.candidates now).keys) order :=
      trivial
    have q₅ := (q₃.trans h₄.quiet).trans (.asked hs₅ hg₄ nofun nofun nofun)
    exact wp_publishLoop live hup hi₂.born order (t₂.quiet q₅)
      ((Quiet.looked _ s₂).trans q₅).evolves
  split
  · exact t₂.done _
  split
  · exact hloop ∅ _ (.refl _ _)
  · refine Outline.wp_call (wp_sandboxes t₂.live) fun r s₃ ⟨q₃, _⟩ => ?_
    cases r with
    | error err => exact (t₂.quiet q₃).done _
    | ok listed => exact hloop _ s₃ q₃

/-! ## The owner re-check -/

theorem wp_recheckOwner {now : Time} {base : ℕ} (h : Ticking .ownerRecheck s) (he : Evolves s₀ s)
    (hborn : s₀.ledger.born ≤ s₀.instant) (hc : s₀.mem.preserved.lookup k = some c) :
    Wp cfg .ownerRecheck (recheckOwner cfg now base k c)
      (fun _ s' => Quiet .ownerRecheck s s') s := by
  obtain ⟨hrow, -, -, hset⟩ := Memory.lookup_preserved.mp hc
  have hdone : ∀ {s₁} (b : Bool), Quiet .ownerRecheck s s₁ → Wp cfg .ownerRecheck
      (Prog.ret b : Code Bool) (fun _ s' => Quiet .ownerRecheck s s') s₁ := fun b q =>
    Wp.ret (q.live h.live) fun s₂ h₂ _ => q.trans h₂.quiet
  have hset' : ∀ {s₁} r (b : Bool), Quiet .ownerRecheck s s₁ → Wp cfg .ownerRecheck
      (do enter (.setRecheck k r) fun _ => (); return b)
      (fun _ s' => Quiet .ownerRecheck s s') s₁ := fun {s₁} r b q => by
    refine Wp.enter (q.live h.live) fun s₂ h₂ hi₂ => ⟨rfl, ?_⟩
    have hg : SectionGuard cfg s₂ .ownerRecheck (.setRecheck k r) := rfl
    exact hdone b (q.trans (h₂.quiet.trans (.entered hi₂ hg id rfl)))
  unfold recheckOwner
  refine Wp.look h.live fun s₁ h₁ hi₁ => ?_
  have q₁ := h₁.quiet.trans (.looked .ownerRecheck s₁)
  split
  · exact hdone _ q₁
  refine Outline.wp_call (wp_destroyAuthorized (q₁.live h.live)) fun v s₂ j => ?_
  have q₂ := q₁.trans j.quiet
  obtain ⟨v, why⟩ := v
  cases v with
  | preserve => exact hset' _ _ q₂
  | release =>
    refine Wp.enter (q₂.live h.live) fun s₃ h₃ hi₃ => ?_
    have q₃ := q₂.trans h₃.quiet
    have e₃ := he.trans q₃.evolves
    have hg : SectionGuard cfg s₃ .ownerRecheck (.withdrawForRelease k c) := by
      refine ⟨rfl, h₃.evolves.authorised (j.release rfl),
        ⟨s₀.mem, e₃.seenAlive ⟨s₀.instant, hborn, s₀.memAt_instant⟩, hc⟩,
        fun cur hcur hid => ?_⟩
      exact (e₃.still_settled hrow hset hcur).resolve_right fun hu => hu.ne_row hrow hid.symm
    exact ⟨hg, hset' _ _ (q₃.trans (.entered hi₃ hg id rfl))⟩

theorem wp_recheckLoop {now : Time} {base : ℕ} (keys : List Key) (changed : Bool)
    (h : Ticking .ownerRecheck s) (he : Evolves s₀ s) (hborn : s₀.ledger.born ≤ s₀.instant) :
    Wp cfg .ownerRecheck (recheckLoop cfg now base s₀.mem.preserved keys changed)
      (fun _ s' => Ticking .ownerRecheck s') s := by
  induction keys generalizing s changed with
  | nil => exact h.done _
  | cons key rest ih =>
    unfold recheckLoop
    split
    · exact ih changed h he
    · next c hc =>
      exact Outline.wp_call (wp_recheckOwner h he hborn hc) fun moved s₁ q₁ =>
        ih _ (h.quiet q₁) (he.trans q₁.evolves)

theorem wp_drainLoop (queue : List Claim) (released : Bool) (h : Ticking .ownerRecheck s)
    (hq : ∀ c ∈ queue, ∃ m, s.Seen m ∧ c ∈ m.releasing) :
    Wp cfg .ownerRecheck (drainLoop queue released) (fun _ s' => Ticking .ownerRecheck s') s := by
  induction queue generalizing s released with
  | nil => exact h.done _
  | cons c rest ih =>
    have hrest : ∀ {s₁}, Quiet .ownerRecheck s s₁ → ∀ c ∈ rest, ∃ m, s₁.Seen m ∧ c ∈ m.releasing :=
      fun q c hc => by
        obtain ⟨m, hm, hmem⟩ := hq c (List.mem_cons_of_mem _ hc)
        exact ⟨m, q.evolves.seen hm, hmem⟩
    obtain ⟨m, hm, hmem⟩ := hq c List.mem_cons_self
    unfold drainLoop
    refine Outline.wp_call (wp_release h.live
      (fun s₁ h₁ _ => .queued (c := c) (h₁.evolves.seen hm) hmem) h.free) fun r s₁ ⟨q₁, hr⟩ => ?_
    cases r with
    | error err => exact ih released (h.quiet q₁) (hrest q₁)
    | ok u =>
      refine Wp.enter (h.quiet q₁).live fun s₂ h₂ hi₂ => ?_
      have hg : SectionGuard cfg s₂ .ownerRecheck (.dequeue c.id) :=
        ⟨rfl, h₂.evolves.released (hr rfl)⟩
      have q₂ := q₁.trans (h₂.quiet.trans (.entered hi₂ hg id rfl))
      exact ⟨hg, ih true (h.quiet q₂) (hrest q₂)⟩

theorem wp_recheckOwners {now : Time} {base : ℕ} (h : Ticking .ownerRecheck s) :
    Wp cfg .ownerRecheck (recheckOwners cfg now base) (fun _ s' => Ticking .ownerRecheck s') s := by
  unfold recheckOwners
  refine Wp.look h.live fun s₁ h₁ hi₁ => ?_
  have t₁ := (h.calm h₁).quiet (.looked _ s₁)
  refine Wp.enter t₁.live fun s₂ h₂ hi₂ => ⟨rfl, ?_⟩
  have hg₂ : SectionGuard cfg s₂ .ownerRecheck (.pruneRechecks s₁.mem.preserved.keys) := rfl
  have q₂ := h₂.quiet.trans (.entered hi₂ hg₂ id rfl)
  have t₂ := t₁.quiet q₂
  refine Wp.request t₂.live fun s₃ h₃ hi₃ order s₄ hs₄ => ⟨trivial, ?_⟩
  have hg₃ : AskGuard cfg s₃ .ownerRecheck (.rangeOver s₁.mem.preserved.keys) order := trivial
  have q₄ := h₃.quiet.trans (.asked hs₄ hg₃ nofun nofun nofun)
  have e₄ : Evolves s₁ s₄ := ((Quiet.looked _ s₁).trans (q₂.trans q₄)).evolves
  refine Outline.wp_call (wp_recheckLoop order false (t₂.quiet q₄) e₄ hi₁.born)
    fun changed s₅ t₅ => ?_
  change Wp cfg _ ((look (·.releasing) >>= fun queued => drainLoop queued false) >>= _) _ s₅
  refine Outline.wp_call (Wp.look t₅.live fun s₆ h₆ hi₆ =>
    wp_drainLoop _ false ((t₅.calm h₆).quiet (.looked _ s₆)) fun c hc =>
      ⟨s₆.mem, (Quiet.looked .ownerRecheck s₆).evolves.seen s₆.seen_mem, hc⟩)
    fun drained s₇ t₇ => ?_
  split
  · exact Outline.wp_mono (wp_saveState t₇.live t₇.call nofun)
      fun _ s' hs => t₇.quiet hs.1.toQuiet
  · exact t₇.done _

/-! ## `New` -/

/-- `New` is running, and nothing of it has gone wrong so far. -/
structure Booting (cfg : Config) (s : State) : Prop where
  ticking : Ticking .boot s
  tentative : s.mem.tentative = ∅
  loaded : ∀ k c, s.row k = some c → c.id ∈ s.ledger.loaded
  recovered : cfg.statePath → s.Recovered

/-- A load brings back every credential of the file. -/
theorem recovered_load {st : StateFile} {now : Time} (hf : s.disk.file = .table st) :
    (s.entered (.load st now)).Recovered := by
  have hst : (s.entered (.load st now)).content = st := by
    change s.disk.file.content = st
    rw [hf]
    rfl
  refine ⟨fun {k c} hk => .inr ?_, ?_⟩
  · rw [hst] at hk
    refine ⟨if c.claimedAt = 0 then { c with claimedAt := now } else c, ?_, by split <;> rfl⟩
    change (Memory.load st now s.mem).claims.lookup k = _
    simp only [Memory.load, Table.lookup_pick, hk, Option.bind_some]
  · rw [hst]
    exact List.Subset.refl _

theorem wp_loadState (h : Ticking .boot s) (hm : s.mem = {}) (hb : s.ledger.born = s.instant) :
    Wp cfg .boot (loadState cfg) (fun r s' => Ticking .boot s' ∧
      (r = .ok () → Booting cfg s')) s := by
  have hempty : ∀ {s'}, Ticking .boot s' → s'.mem = {} → (cfg.statePath → s'.Recovered) →
      Booting cfg s' := fun ht hm hr =>
    ⟨ht, by rw [hm], fun k c hk => (by rw [State.row, hm] at hk; simp at hk), hr⟩
  unfold loadState
  split
  · next hp =>
    refine Wp.ret h.live fun s₁ h₁ _ => ⟨h.calm h₁, fun _ => ?_⟩
    refine hempty (h.calm h₁) (by rw [h₁.still rfl]; exact hm) fun hy => ?_
    simp [hy] at hp
  next hpath =>
  refine Wp.request h.live fun s₁ h₁ hi₁ r s₂ hs₂ => ?_
  have hm₁ : s₁.mem = {} := by rw [h₁.still rfl]; exact hm
  have hb₁ : s₁.ledger.born = s₁.instant := by rw [h₁.still rfl]; exact hb
  have t₁ := h.calm h₁
  have hg₁ : AskGuard cfg s₁ .boot .readFile r := ⟨rfl, hm₁⟩
  refine ⟨hg₁, ?_⟩
  have hfail : ∀ {s₃} err, Ticking .boot s₃ → Wp cfg .boot (return .error err)
      (fun (r : Except ProviderError Unit) s' => Ticking .boot s' ∧
        (r = .ok () → Booting cfg s')) s₃ := fun err ht =>
    Wp.ret ht.live fun s₄ h₄ _ => ⟨ht.calm h₄, fun he => by cases he⟩
  cases r with
  | failed err => cases hs₂; exact hfail _ t₁
  | undecodable err =>
    simp only [answer] at hs₂
    split at hs₂
    · cases hs₂; exact hfail _ t₁
    · cases hs₂
  | absent =>
    simp only [answer] at hs₂
    split at hs₂
    · next hf =>
      cases hs₂
      refine Wp.ret t₁.live fun s₃ h₃ _ => ⟨t₁.calm h₃, fun _ => hempty (t₁.calm h₃) ?_ ?_⟩
      · rw [h₃.still rfl]; exact hm₁
      · intro _
        rw [h₃.still rfl]
        exact ⟨fun hk => by simp [State.content, hf, File.content] at hk, by
          simp [State.content, hf, File.content]⟩
    · cases hs₂
  | decoded st =>
    simp only [answer] at hs₂
    split at hs₂
    · next hf =>
      cases hs₂
      have t₂ : Ticking .boot (s₁.record fun l => { l with loaded := st.rowIds }) :=
        ⟨t₁.live, t₁.call, t₁.free, t₁.loop⟩
      refine Wp.request t₂.live fun s₃ h₃ hi₃ now s₄ hs₄ => ⟨trivial, ?_⟩
      obtain ⟨rfl, hnow⟩ := answer_now hs₄
      refine Wp.enter (t₂.calm h₃).live fun s₄ h₄ hi₄ => ?_
      obtain rfl := (h₄.still rfl).trans (h₃.still rfl)
      refine ⟨⟨rfl, hm₁, hf, rfl, by simpa using hpath, hnow, t₁.free, hb₁⟩, ?_⟩
      have t₅ : Ticking .boot (State.entered (s₁.record fun l => { l with loaded := st.rowIds })
          (.load st now)) := ⟨t₁.live, t₁.call, t₁.free, t₁.loop⟩
      refine Wp.ret t₅.live fun s₆ h₆ _ => ⟨t₅.calm h₆, fun _ => ?_⟩
      obtain rfl := h₆.still rfl
      refine ⟨t₅, ?_, fun k c hk => ?_, fun _ => recovered_load hf⟩
      · change s₁.mem.tentative = ∅
        rw [hm₁]
      · obtain ⟨c₀, at₀, h₀, rfl⟩ := Memory.row_load hk
        exact StateFile.mem_rowIds.mpr ⟨k, c₀, h₀, rfl⟩
    · cases hs₂

/-- What `New` has when it comes to write the file: all of it back, and what is settled, listed. -/
structure Loaded (cfg : Config) (s : State) : Prop where
  ticking : Ticking .boot s
  recovered : cfg.statePath → s.Recovered
  settled : cfg.lister → ∀ k c, s.row k = some c → s.mem.settled k → c.id ∈ s.ledger.vouched

/-- The quarantine and the listing `New` puts its loaded claims through. -/
theorem wp_bootVerify {α : Type} {g : Code α} {Q : α → State → Prop} (hl : cfg.lister)
    (h : Booting cfg s) (hg : ∀ s', Loaded cfg s' → Wp cfg .boot g Q s') :
    Wp cfg .boot (do
      enter .quarantineLoadedClaims fun _ => ()
      let _ ← verifyClaimsAgainstNode cfg
      g) Q s := by
  refine Wp.enter h.ticking.live fun s₁ h₁ hi₁ => ?_
  obtain rfl := h₁.still rfl
  refine ⟨⟨rfl, hl, h.tentative, h.loaded⟩, ?_⟩
  have t₁ : Ticking .boot (s₁.entered .quarantineLoadedClaims) :=
    ⟨h.ticking.live, h.ticking.call, h.ticking.free, h.ticking.loop⟩
  refine Outline.wp_call (wp_verify t₁.live t₁.creating) fun r s₂ v =>
    hg s₂ ⟨t₁.quiet v.quiet, fun hp => ?_, ?_⟩
  · exact v.recovered rfl ((h.recovered hp).of rfl (Finset.Subset.refl _)
      (fun k c hc => .inr ⟨c, hc, rfl⟩) (List.Subset.refl _))
  · exact fun _ => v.settled rfl fun k c hk =>
      Finset.mem_union_right _ (Finmap.mem_keys.mpr (Finmap.mem_of_lookup_eq_some hk))

theorem wp_bootPersist (h : Loaded cfg s) : Wp cfg .boot (do
      match ← persist cfg with
      | .error err => return .error (.notWritable (err.text cfg.platform))
      | .ok () => return .ok ())
    (fun (r : Except ProviderError Unit) s' => Ticking .boot s' ∧
      ReturnGuard cfg s' .boot .new (.ofExcept r)) s := by
  refine Outline.wp_delay fun s₁ h₁ hi => ?_
  obtain rfl := (h₁ h.ticking.live).still rfl
  refine Outline.wp_call (wp_persist h.ticking.live h.ticking.call fun _ => h.recovered)
    fun r s₁ w => ?_
  have t₁ := h.ticking.quiet w.silent.toQuiet
  cases r with
  | error err => exact Wp.ret t₁.live fun s₂ h₂ _ => ⟨t₁.calm h₂, trivial⟩
  | ok u =>
    refine Wp.ret t₁.live fun s₂ h₂ _ => ⟨t₁.calm h₂, ?_⟩
    obtain rfl := h₂.still rfl
    obtain ⟨hstill, hok⟩ := w.still rfl
    refine ⟨fun hp => ⟨(hok rfl hp).2, (hok rfl hp).1, ?_⟩, fun hl k c hk hs => ?_⟩
    · obtain ⟨n, hn, hle⟩ := w.ok rfl hp
      refine ⟨n, hn, ?_, fun k => by rw [hstill.progress]; exact (hi.touched k).trans hle⟩
      rw [w.silent.evolves.born]
      exact hi.born.trans hle
    rw [State.row, hstill.mem] at hk
    rw [hstill.mem] at hs
    rw [hstill.vouched]
    exact h.settled hl k c hk hs

theorem wp_new (h : Ticking .boot s) (hm : s.mem = {}) (hb : s.ledger.born = s.instant) :
    Wp cfg .boot (new cfg) (fun r s' => Ticking .boot s' ∧
      ReturnGuard cfg s' .boot .new (.ofExcept r)) s := by
  unfold new
  refine Outline.wp_orReturn (wp_loadState h hm hb) (fun err s₁ s₂ hP hr hi => ?_)
    fun _ s₁ hP => ?_
  · exact ⟨hP.1.calm (hr hP.1.live), trivial⟩
  · have hbooting := hP.2 rfl
    split
    · next hl => exact wp_bootVerify hl hbooting fun s₂ h₂ => wp_bootPersist h₂
    · next hl => exact wp_bootPersist ⟨hbooting.ticking, hbooting.recovered, fun hy => absurd hy hl⟩

end VkSandbox
