import VkSandbox.Provider.Interference

/-!
# Provider/Rules — following a method through its text

The rules of `Outline.wp` at this machine, one per node, with the interference already read as
`Calm`.  `Quiet` is what a stretch of a method leaves behind that takes no section of its own key's
queue; the helpers of the methods (a listing, an owner read, a notification, a release, a state
write) are specified in terms of it.
-/

namespace VkSandbox

open Interleave Interleave.Prog

/-- The weakest precondition of a stretch of code run by `t`. -/
abbrev Wp (cfg : Config) (t : Tid) {α : Type} (p : Code α) (Q : α → State → Prop) (s : State) :
    Prop := (outline cfg).wp t p Q s

variable {cfg : Config} {t : Tid} {s s' : State} {α β : Type} {Q : α → State → Prop}

/-! ## One rule per node -/

namespace Wp

theorem ret (hl : s.Live t) {a : α} (h : ∀ s₁, Calm t s s₁ → Inv cfg s₁ → Q a s₁) :
    Wp cfg t (Prog.ret a) Q s := fun s₁ hr hi => h s₁ (hr hl) hi

theorem look (hl : s.Live t) {f : Memory → β} {g : β → Code α}
    (h : ∀ s₁, Calm t s s₁ → Inv cfg s₁ → Wp cfg t (g (f s₁.mem)) Q (s₁.looked t)) :
    Wp cfg t (Prog.look f >>= g) Q s := fun s₁ hr hi =>
  ⟨(hr hl).evolves.live hl, fun s₂ h₂ => by cases h₂; exact h s₁ (hr hl) hi⟩

theorem enter (hl : s.Live t) {a : Section} {f : Memory → β} {g : β → Code α}
    (h : ∀ s₁, Calm t s s₁ → Inv cfg s₁ →
      SectionGuard cfg s₁ t a ∧ Wp cfg t (g (f s₁.mem)) Q (s₁.entered a)) :
    Wp cfg t (Prog.enter a f >>= g) Q s := fun s₁ hr hi =>
  ⟨⟨(hr hl).evolves.live hl, (h s₁ (hr hl) hi).1⟩,
    fun s₂ h₂ => by cases h₂; exact (h s₁ (hr hl) hi).2⟩

theorem request (hl : s.Live t) {e : Request} {g : Reply e → Code α}
    (h : ∀ s₁, Calm t s s₁ → Inv cfg s₁ → ∀ r s₂, answer t e r s₁ = some s₂ →
      AskGuard cfg s₁ t e r ∧ Wp cfg t (g r) Q s₂) :
    Wp cfg t (VkSandbox.request e >>= g) Q s := fun s₁ hr hi r s₂ h₂ =>
  ⟨⟨(hr hl).evolves.live hl, (h s₁ (hr hl) hi r s₂ h₂).1⟩, (h s₁ (hr hl) hi r s₂ h₂).2⟩

theorem last_request (hl : s.Live t) {e : Request} {Q : Reply e → State → Prop}
    (h : ∀ s₁, Calm t s s₁ → Inv cfg s₁ → ∀ r s₂, answer t e r s₁ = some s₂ →
      AskGuard cfg s₁ t e r ∧ s₂.Live t ∧ ∀ s₃, Calm t s₂ s₃ → Inv cfg s₃ → Q r s₃) :
    Wp cfg t (VkSandbox.request e) Q s := fun s₁ hr hi r s₂ h₂ =>
  have h := h s₁ (hr hl) hi r s₂ h₂
  ⟨⟨(hr hl).evolves.live hl, h.1⟩, Wp.ret h.2.1 h.2.2⟩

end Wp

/-! ## Quiet stretches -/

/-- What a stretch of `t`'s code leaves behind that takes no section of its own queue. -/
structure Quiet (t : Tid) (s s' : State) : Prop where
  evolves : Evolves s s'
  calls : s'.ledger.calls t = s.ledger.calls t
  free : s.saveMu ≠ some t → s'.saveMu ≠ some t
  own : ∀ k, t = .lifecycle k → Own k s s'

namespace Quiet

variable {s₁ s₂ s₃ : State}

theorem refl (t : Tid) (s : State) : Quiet t s s := ⟨.refl s, rfl, id, fun k _ => .refl k s⟩

theorem trans (h : Quiet t s₁ s₂) (h' : Quiet t s₂ s₃) : Quiet t s₁ s₃ :=
  ⟨h.evolves.trans h'.evolves, h'.calls.trans h.calls, h'.free ∘ h.free,
    fun k hk => (h.own k hk).trans (h'.own k hk) h'.evolves⟩

theorem live (h : Quiet t s s') (hl : s.Live t) : s'.Live t := h.evolves.live hl

theorem looked (t : Tid) (s : State) : Quiet t s (s.looked t) :=
  ⟨{ Evolves.refl s with }, rfl, id, fun k _ => { Own.refl k s with }⟩

theorem asked {e : Request} {r : Reply e} (h : answer t e r s = some s')
    (hg : AskGuard cfg s t e r) (hr : e ≠ .readFile) (hc : ∀ spec, e ≠ .claim spec)
    (hm : e ≠ .lockSave) : Quiet t s s' := by
  have ha := answered h
  refine ⟨.asked hg hr h, by rw [ha.calls], fun hf => ?_, fun k _ =>
    .asked (fun spec he => absurd he (hc spec)) h⟩
  by_cases hu : e = .unlockSave
  · subst hu
    simp only [answer] at h
    split at h
    · cases h; intro h; cases h
    · cases h
  · rw [ha.saveMu hm hu]
    exact hf

theorem entered {a : Section} (hi : Inv cfg s) (hg : SectionGuard cfg s t a)
    (hs : ¬ a.Startup) (hq : a.queueKey = none) : Quiet t s (s.entered a) :=
  ⟨.locked hi hg hs, rfl, id, fun k _ => .locked hi hg hs (by rw [hq]; exact fun h => by cases h)⟩

end Quiet

theorem Calm.quiet (h : Calm t s s') : Quiet t s s' :=
  ⟨h.evolves, h.mine.calls, h.mine.free, h.own⟩

/-! ## What stays for `New`, which runs alone -/

/-- The tables, what the listings said and how far the queues have come are as they were. -/
structure Still (s s' : State) : Prop where
  mem : s'.mem = s.mem
  missed : s'.ledger.missed = s.ledger.missed
  vouched : s'.ledger.vouched = s.ledger.vouched
  loaded : s'.ledger.loaded = s.ledger.loaded
  progress : ∀ k, s'.ledger.progress k = s.ledger.progress k

namespace Still

theorem refl (s : State) : Still s s := ⟨rfl, rfl, rfl, rfl, fun _ => rfl⟩

theorem trans {s₁ s₂ s₃ : State} (h : Still s₁ s₂) (h' : Still s₂ s₃) : Still s₁ s₃ :=
  ⟨h'.mem.trans h.mem, h'.missed.trans h.missed, h'.vouched.trans h.vouched,
    h'.loaded.trans h.loaded, fun k => (h'.progress k).trans (h.progress k)⟩

theorem asked {e : Request} {r : Reply e} (h : answer t e r s = some s') (hl : e ≠ .sandboxes)
    (hr : e ≠ .readFile) (hc : ∀ spec, e ≠ .claim spec) : Still s s' :=
  have ha := answered h
  ⟨ha.mem, ha.missed hl, ha.vouched hl, ha.loaded hr,
    fun k => ha.progress k fun spec he => absurd he (hc spec)⟩

theorem calm (h : Calm .boot s s') : Still s s' := by
  rw [h.still rfl]
  exact .refl s

end Still

/-! ## The helpers of the methods -/

/-- What a listing tells: an id issued before and missing from it is gone, an id in it is there. -/
def Listed (s : State) (r : Except String (List SandboxSummary)) (s' : State) : Prop :=
  match r with
  | .ok listed => (∀ id ∈ s.ledger.issuedIds, id ∉ listedIds listed → id ∈ s'.ledger.missed) ∧
      ∀ id ∈ listedIds listed, id ∈ s'.ledger.vouched
  | .error _ => s'.ledger.listFailed = true

theorem Listed.evolves {s₁ : State} {r : Except String (List SandboxSummary)} (h : Listed s r s₁)
    (he : Evolves s₁ s') : Listed s r s' := by
  cases r with
  | ok listed =>
    exact ⟨fun id hid hn => he.missed (h.1 id hid hn), fun id hid => he.vouched (h.2 id hid)⟩
  | error err => exact he.listFailed h

theorem wp_sandboxes (hl : s.Live t) :
    Wp cfg t sandboxes (fun r s' => Quiet t s s' ∧ Listed s r s' ∧
      (t = .boot → s'.mem = s.mem ∧ s'.disk = s.disk)) s := by
  refine Wp.request hl fun s₁ h₁ hi₁ _ s₂ hs₂ => ⟨trivial, ?_⟩
  have hg₁ : AskGuard cfg s₁ t .sendList () := trivial
  have q₂ : Quiet t s s₂ := h₁.quiet.trans (.asked hs₂ hg₁ nofun nofun nofun)
  have hlist : s₂.ledger.listing t = s₁.ledger.issuedIds := by
    cases hs₂
    exact Function.update_self _ _ _
  refine Wp.last_request (q₂.live hl) fun s₃ h₃ hi₃ r s₄ hs₄ => ⟨trivial, ?_⟩
  have hg₃ : AskGuard cfg s₃ t .sandboxes r := trivial
  have q₄ := q₂.trans (h₃.quiet.trans (.asked hs₄ hg₃ nofun nofun nofun))
  have hlisted : Listed s r s₄ := by
    cases r with
    | error err => cases hs₄; rfl
    | ok listed =>
      cases hs₄
      refine ⟨fun id hid hn => Finset.mem_union_right _ (Finset.mem_filter.mpr ⟨?_, hn⟩),
        fun id hid => Finset.mem_union_right _ (List.mem_toFinset.mpr hid)⟩
      rw [h₃.mine.listing, hlist]
      exact h₁.evolves.issuedIds hid
  refine ⟨q₄.live hl, fun s₅ h₅ _ => ⟨q₄.trans h₅.quiet, hlisted.evolves h₅.evolves, fun hb => ?_⟩⟩
  rw [h₅.still hb, (answered hs₄).mem, (answered hs₄).disk nofun nofun, h₃.still hb,
    (answered hs₂).mem, (answered hs₂).disk nofun nofun, h₁.still hb]
  exact ⟨rfl, rfl⟩

/-- A notification, given that its guard holds whenever it is sent. -/
theorem wp_notify (hl : s.Live t) {pod : Pod}
    (hg : ∀ s₁, Quiet t s s₁ → Inv cfg s₁ → AskGuard cfg s₁ t (.notify pod) ()) :
    Wp cfg t (notify pod) (fun _ s' => Quiet t s s') s := by
  refine Wp.look hl fun s₁ h₁ hi₁ => ?_
  have q₁ : Quiet t s (s₁.looked t) := h₁.quiet.trans (.looked t s₁)
  split
  · refine Wp.last_request (q₁.live hl) fun s₂ h₂ hi₂ _ s₃ hs₃ => ?_
    have hg₂ := hg s₂ (q₁.trans h₂.quiet) hi₂
    have q₃ := q₁.trans (h₂.quiet.trans (.asked hs₃ hg₂ nofun nofun nofun))
    exact ⟨hg₂, q₃.live hl, fun s₄ h₄ _ => q₃.trans h₄.quiet⟩
  · exact Wp.ret (q₁.live hl) fun s₂ h₂ _ => q₁.trans h₂.quiet

/-- A release that may be sent. -/
theorem wp_release (hl : s.Live t) {id token : String}
    (hg : ∀ s₁, Calm t s s₁ → Inv cfg s₁ → ReleaseCause s₁ t ⟨id, token⟩) (hm : s.saveMu ≠ some t) :
    Wp cfg t (release id token)
      (fun r s' => Quiet t s s' ∧ (r = .ok () → id ∈ s'.ledger.released)) s := by
  refine Wp.request hl fun s₁ h₁ hi₁ _ s₂ hs₂ => ?_
  have hg₁ : AskGuard cfg s₁ t (.sendRelease id token) () := ⟨hg s₁ h₁ hi₁, h₁.mine.free hm⟩
  have q₂ := h₁.quiet.trans (.asked hs₂ hg₁ nofun nofun nofun)
  have hsent : id ∈ s₂.ledger.sent := by
    cases hs₂
    exact Finset.mem_insert_self _ _
  refine ⟨hg₁, Wp.last_request (q₂.live hl) fun s₃ h₃ hi₃ r s₄ hs₄ => ?_⟩
  have hg₃ : AskGuard cfg s₃ t (.release id token) r := h₃.evolves.sent hsent
  have q₄ := q₂.trans (h₃.quiet.trans (.asked hs₄ hg₃ nofun nofun nofun))
  refine ⟨hg₃, q₄.live hl, fun s₅ h₅ _ => ⟨q₄.trans h₅.quiet, ?_⟩⟩
  rintro rfl
  cases hs₄
  exact h₅.evolves.released (Finset.mem_insert_self _ _)

/-- What an owner read leaves: a release verdict is authorised, and only an owned sandbox is
preserved. -/
structure Judged (t : Tid) (s : State) (key : Key) (owner : Option OwnerReference)
    (v : AuthVerdict × String) (s' : State) : Prop where
  quiet : Quiet t s s'
  readAt : s'.ledger.readAt t = s.ledger.readAt t
  release : v.1 = .release → s'.Authorised key owner
  preserve : v.1 = .preserve → owner.isSome

theorem wp_destroyAuthorized (hl : s.Live t) {key ns : String} {owner : Option OwnerReference} :
    Wp cfg t (destroyAuthorized cfg key ns owner) (Judged t s key owner) s := by
  cases owner with
  | none =>
    refine Wp.ret hl fun s₁ h₁ _ => ⟨h₁.quiet, h₁.mine.readAt, fun _ => ?_, fun h => by cases h⟩
    intro ref h
    cases h
  | some ref =>
    have hpreserve : ∀ why : String,
        Wp cfg t (Prog.ret (AuthVerdict.preserve, why)) (Judged t s key (some ref)) s := fun why =>
      Wp.ret hl fun s₁ h₁ _ => ⟨h₁.quiet, h₁.mine.readAt, fun h => (by cases h), fun _ => rfl⟩
    simp only [destroyAuthorized]
    split
    · exact hpreserve _
    · split
      · exact hpreserve _
      · next gvr _ =>
        refine Wp.request hl fun s₁ h₁ hi₁ read s₂ hs₂ => ⟨trivial, ?_⟩
        have hg₁ : AskGuard cfg s₁ t (.getOwner key gvr ns ref.name) read := trivial
        have q₂ := h₁.quiet.trans (.asked hs₂ hg₁ nofun nofun nofun)
        have hread : (key, ref.name, read) ∈ s₂.ledger.reads := by
          cases hs₂
          exact List.mem_cons_self
        have hat : s₂.ledger.readAt t = s.ledger.readAt t := by
          rw [(answered hs₂).readAt, h₁.mine.readAt]
        refine Wp.ret (q₂.live hl) fun s₃ h₃ _ =>
          ⟨q₂.trans h₃.quiet, h₃.mine.readAt.trans hat, fun hv ref' he => ?_, fun _ => rfl⟩
        cases he
        exact ⟨read, h₃.evolves.reads hread, hv⟩

/-! ## `VerifyClaimsAgainstNode` -/

/-- What a verification leaves behind: no quarantine for the key whose queue ran it, or a failed
listing. -/
structure Verified (cfg : Config) (t : Tid) (s : State) (r : Bool) (s' : State) : Prop where
  quiet : Quiet t s s'
  lifted : r = true → ∀ k, t = .lifecycle k → k ∉ s'.mem.quarantined
  failed : r = false → cfg.lister → s'.ledger.listFailed = true
  recovered : t = .boot → s.Recovered → s'.Recovered
  settled : t = .boot → (∀ k c, s.row k = some c → k ∈ s.mem.quarantined) →
    ∀ k c, s'.row k = some c → s'.mem.settled k → c.id ∈ s'.ledger.vouched
  disk : t = .boot → s'.disk = s.disk

/-- The rows a verification judges are loaded ones. -/
theorem Inv.unverified_loaded (hi : Inv cfg s) {k : Key} {id : String}
    (h : s.mem.unverified.lookup k = some id) : id ∈ s.ledger.loaded := by
  obtain ⟨c, hc, hq, rfl⟩ := Memory.lookup_unverified.mp h
  obtain ⟨c', hc', hl⟩ := hi.quarantined hq
  obtain rfl : c' = c := Option.some.inj (hc'.symm.trans hc)
  exact hl

theorem Inv.lookup_unverified (hi : Inv cfg s) {k : Key} (h : k ∈ s.mem.quarantined) :
    ∃ c, s.row k = some c ∧ s.mem.unverified.lookup k = some c.id := by
  obtain ⟨c, hc, -⟩ := hi.quarantined h
  exact ⟨c, hc, Memory.lookup_unverified.mpr ⟨c, hc, h, rfl⟩⟩

/-- A listing that came after the snapshot may judge it. -/
theorem settle_guard {s₀ s₁ : State} (hi : Inv cfg s₀) (he : Evolves s₀ s₁)
    {listed : List SandboxSummary} (hlisted : Listed s₀ (.ok listed) s₁) (he' : Evolves s₁ s)
    (hc : s.Creating t) :
    SectionGuard cfg s t (.settle s₀.mem.unverified (liveDeadlines listed)) := by
  refine ⟨hc, fun k id hb => ?_⟩
  have hload := hi.unverified_loaded hb
  have hlisted' := hlisted.evolves he'
  refine ⟨by rw [(he.trans he').loaded]; exact hload, fun hn => ?_, fun hs => ?_⟩
  · refine hlisted'.1 id (hi.loadedIssued hload) fun hm => ?_
    rw [← isSome_lookup_liveDeadlines, hn] at hm
    cases hm
  · exact hlisted'.2 id ((isSome_lookup_liveDeadlines listed id).mp hs)

theorem State.Creating.congr {s s' : State} (h : s.Creating t)
    (hc : s'.ledger.calls t = s.ledger.calls t) : s'.Creating t := by
  intro k hk
  obtain ⟨pod, n, hn⟩ := h k hk
  exact ⟨pod, n, by rwa [hc]⟩

theorem wp_verify (hl : s.Live t) (hcr : s.Creating t) :
    Wp cfg t (verifyClaimsAgainstNode cfg) (Verified cfg t s) s := by
  unfold verifyClaimsAgainstNode
  split
  · next hno =>
    refine Wp.ret hl fun s₁ h₁ _ =>
      ⟨h₁.quiet, nofun, fun _ hy => ?_, fun hb => ?_, fun hb hq k c hk hs => ?_,
      fun hb => by rw [h₁.still hb]⟩
    · simp [hy] at hno
    · rw [h₁.still hb]; exact id
    · rw [h₁.still hb] at hk hs
      exact absurd (hq k c hk) (Memory.settled_eq_true.mp hs).2
  · refine Wp.look hl fun s₁ h₁ hi₁ => ?_
    have q₁ : Quiet t s (s₁.looked t) := h₁.quiet.trans (.looked t s₁)
    split
    · next hempty =>
      have hnone : ∀ k, k ∉ s₁.mem.quarantined := fun k hk => by
        obtain ⟨c, -, hb⟩ := hi₁.lookup_unverified hk
        have : k ∈ s₁.mem.unverified.keys := Finmap.mem_keys.mpr (Finmap.mem_of_lookup_eq_some hb)
        rw [hempty] at this
        cases this
      refine Wp.ret (q₁.live hl) fun s₂ h₂ _ => ⟨q₁.trans h₂.quiet, fun _ k hk hq => ?_, nofun,
        fun hb => ?_, fun hb hq k c hk hs => ?_, fun hb => ?_⟩
      · exact hnone k ((h₂.own k hk).quarantined hq)
      · rw [h₂.still hb]
        intro hr
        rw [← h₁.still hb] at hr
        exact hr.congr rfl (Finset.Subset.refl _) rfl
      · rw [h₂.still hb] at hk
        have hk : s₁.row k = some c := hk
        rw [h₁.still hb] at hk hnone
        exact absurd (hq k c hk) (hnone k)
      · rw [h₂.still hb]
        change s₁.disk = s.disk
        rw [h₁.still hb]
    · refine Outline.wp_call (wp_sandboxes (q₁.live hl)) fun r s₂ ⟨q₂, hlisted, hb₂⟩ => ?_
      have q₀₂ := q₁.trans q₂
      cases r with
      | error err =>
        refine Wp.ret (q₀₂.live hl) fun s₃ h₃ _ => ⟨q₀₂.trans h₃.quiet, nofun,
          fun _ _ => h₃.evolves.listFailed hlisted, fun hb hr => ?_, fun hb hq k c hk hs => ?_,
          fun hb => ?_⟩
        · rw [h₃.still hb]
          rw [← h₁.still hb] at hr
          exact hr.congr (by rw [(hb₂ hb).2]; rfl) q₂.evolves.missed (hb₂ hb).1
        · rw [h₃.still hb] at hk hs
          rw [State.row, (hb₂ hb).1] at hk
          rw [(hb₂ hb).1] at hs
          rw [← h₁.still hb] at hq
          exact absurd (hq k c hk) (Memory.settled_eq_true.mp hs).2
        · rw [h₃.still hb, (hb₂ hb).2]
          change s₁.disk = s.disk
          rw [h₁.still hb]
      | ok listed =>
        refine Wp.enter (q₀₂.live hl) fun s₃ h₃ hi₃ => ?_
        have q₁₃ : Quiet t s₁ s₃ := (Quiet.looked t s₁).trans (q₂.trans h₃.quiet)
        have hlisted' : Listed s₁ (.ok listed) s₂ := hlisted
        have hg : SectionGuard cfg s₃ t (.settle s₁.mem.unverified (liveDeadlines listed)) :=
          settle_guard hi₁ ((Quiet.looked t s₁).trans q₂).evolves hlisted' h₃.evolves
            (hcr.congr (q₀₂.trans h₃.quiet).calls)
        have q₄ := Quiet.entered hi₃ hg id rfl
        refine ⟨hg, Wp.ret ((q₀₂.trans (h₃.quiet.trans q₄)).live hl) fun s₅ h₅ _ =>
          ⟨q₀₂.trans (h₃.quiet.trans (q₄.trans h₅.quiet)), fun _ k hk hq => ?_, nofun,
          fun hb hr => ?_, fun hb hq k c hk hs => ?_, fun hb => ?_⟩⟩
        · -- the row is still the one the listing judged
          obtain ⟨he, -⟩ | ⟨hq₃, hj, -⟩ := Section.quarantined_back ((h₅.own k hk).quarantined hq)
          · cases he
          have o₃ := q₁₃.own k hk
          obtain ⟨c₁, hc₁, hb₁⟩ := hi₁.lookup_unverified (o₃.quarantined hq₃)
          obtain ⟨c₃, hc₃, -⟩ := hi₃.quarantined hq₃
          have hid : c₃.id = c₁.id := by
            obtain ⟨d, hd⟩ | ⟨hn, -⟩ := o₃.kept hc₁
            · rw [hc₃] at hd
              cases hd
              rfl
            · rw [hc₃] at hn
              cases hn
          have := hj _ _ rfl
          rw [Memory.judged, show s₃.mem.claims.lookup k = some c₃ from hc₃] at this
          simp [hb₁, hid] at this
        · rw [h₅.still hb]
          rw [← h₁.still hb] at hr
          have hr₃ : s₃.Recovered := hr.congr (by rw [h₃.still hb, (hb₂ hb).2]; rfl)
            q₁₃.evolves.missed (by rw [h₃.still hb, (hb₂ hb).1]; rfl)
          refine hr₃.of rfl (Finset.Subset.refl _) (fun k c hk => ?_) (List.Subset.refl _)
          obtain ⟨c', hc', hsame⟩ | hend := hg.forward hk
          · exact .inr ⟨c', hc', hsame.cred⟩
          · cases hend with
            | unlisted _ _ _ hlack => exact .inl hlack
            | dropped he | superseded he | withdrawn he | rechecked he => cases he
        · rw [h₅.still hb] at hk hs ⊢
          rw [← h₁.still hb] at hq
          have hmem : s₃.mem = s₁.mem := by rw [h₃.still hb, (hb₂ hb).1]; rfl
          obtain ⟨c₃, hc₃, ⟨hbef, hrow⟩ | ⟨hbef, rfl⟩⟩ := Memory.row_settle.mp hk
          · rw [(Memory.settleRow_eq_some hrow).2.1.id]
            exact (hg.2 k c₃.id hbef).2.2 (Memory.settleRow_eq_some hrow).1
          · rw [hmem] at hc₃
            exact absurd (Memory.lookup_unverified.mpr ⟨c, hc₃, hq k c hc₃, rfl⟩) hbef
        · rw [h₅.still hb]
          change s₃.disk = s.disk
          rw [h₃.still hb, (hb₂ hb).2]
          change s₁.disk = s.disk
          rw [h₁.still hb]

end VkSandbox
