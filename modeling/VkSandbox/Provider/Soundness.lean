import VkSandbox.Provider.Loops

/-!
# Provider/Soundness — every event of every run meets its guard

The programs start where their specs want them (`wp_code`), guarded events keep the invariant and
are interference everybody allows for; so the outline is a proof (`sound`), and a run of the machine
is a guarded one (`Runs.guarded`).  From here on nothing looks at a program.
-/

namespace VkSandbox

open Interleave Interleave.Prog

variable {cfg : Config} {t : Tid} {op : Op} {s s' : State}

theorem wp_notifyPods (h : Ticking .controller s) :
    Wp cfg .controller (enter .notifyPods fun _ => ()) (fun _ s' => Ticking .controller s') s := by
  refine Wp.enter (g := .ret) h.live fun s₁ h₁ hi₁ => ⟨trivial, ?_⟩
  have h₂ := (h.calm h₁).quiet (.entered (a := .notifyPods) hi₁ trivial id rfl)
  exact Wp.ret h₂.live fun s₃ h₃ _ => h₂.calm h₃

/-! ## Calls -/

theorem live_of_up (ht : t ≠ .boot) (hup : s.phase = .up) : s.Live t := by
  cases t with
  | boot => exact absurd rfl ht
  | _ => exact hup

theorem State.Live.congr (h : s.Live t) (hp : s'.phase = s.phase) : s'.Live t := by
  cases t <;> exact hp.trans h

/-- What a call has to show when it returns, but that it was this call. -/
def Returns (cfg : Config) (t : Tid) (op : Op) (r : Outcome) (s : State) : Prop :=
  s.Live t ∧ s.saveMu ≠ some t ∧ ReturnGuard cfg s t op r

/-- A thread stays in its call until it returns. -/
theorem Wp.calls {α : Type} {p : Code α} {Q : α → State → Prop} {x : Option (ℕ × Op)}
    (hl : s.Live t) (hc : s.ledger.calls t = x) (h : Wp cfg t p Q s) :
    Wp cfg t p (fun a s' => Q a s' ∧ s'.ledger.calls t = x) s := by
  induction p generalizing s with
  | ret a => exact fun s₁ hr hi => ⟨h s₁ hr hi, (hr hl).mine.calls.trans hc⟩
  | read k ih =>
    refine fun s₁ hr hi => ⟨(h s₁ hr hi).1, fun s₂ hs => ?_⟩
    have hw := (h s₁ hr hi).2 s₂ hs
    cases hs
    exact ih _ (.congr ((hr hl).evolves.live hl) rfl) ((hr hl).mine.calls.trans hc) hw
  | lock a k ih =>
    refine fun s₁ hr hi => ⟨(h s₁ hr hi).1, fun s₂ hs => ?_⟩
    have hw := (h s₁ hr hi).2 s₂ hs
    cases hs
    exact ih _ (.congr ((hr hl).evolves.live hl) rfl) ((hr hl).mine.calls.trans hc) hw
  | ask e k ih =>
    refine fun s₁ hr hi r s₂ hs => ⟨(h s₁ hr hi r s₂ hs).1, ?_⟩
    have ha := answered hs
    refine ih r (.congr ((hr hl).evolves.live hl) ha.phase) ?_ (h s₁ hr hi r s₂ hs).2
    rw [ha.calls]
    exact (hr hl).mine.calls.trans hc

/-- The tick of a loop has nothing to answer for but the lock. -/
theorem Wp.tick {α : Type} {p : Code α} {f : α → Outcome}
    (h : Wp cfg t p (fun _ s' => Ticking t s') s) (ht : t ≠ .boot) (hk : ∀ k, t ≠ .lifecycle k) :
    Wp cfg t (f <$> p) (Returns cfg t op) s := by
  refine Outline.wp_map (Outline.wp_mono h fun _ _ h₁ => ⟨h₁.live, h₁.free, ?_⟩)
  cases t with
  | boot => exact absurd rfl ht
  | lifecycle k => exact absurd rfl (hk k)
  | _ => trivial

/-- A thread that begins a call does not hold the save lock. -/
theorem Inv.free_start (hi : Inv cfg s) (hc : s.ledger.calls t = none) : s.saveMu ≠ some t := by
  intro hm
  have := hi.lockOwner hm
  rw [hc] at this
  cases this

/-- `New` begins on empty tables. -/
theorem wp_code_new (hi : Inv cfg s) (hd : s.phase = .down) (hc : s.ledger.calls .boot = none) :
    Wp cfg .boot (code cfg .new) (Returns cfg .boot .new)
      ({ s with phase := .booting }.record fun l =>
        (l.begin .boot .new s.instant).boot s.instant) := by
  have h : Ticking .boot
      ({ s with phase := .booting }.record fun l =>
        (l.begin .boot .new s.instant).boot s.instant) :=
    ⟨rfl, by simp [State.record, Ledger.begin, Ledger.boot], hi.free_start hc,
      fun _ he => by cases he⟩
  refine Outline.wp_map (Outline.wp_mono (wp_new h (hi.down hd) rfl) ?_)
  rintro r s₁ ⟨h₁, hr⟩
  exact ⟨h₁.live, h₁.free, hr⟩

/-- A lifecycle call begins with its key's progress afresh. -/
theorem wp_code_lifecycle {k : Key} (hi : Inv cfg s) (hup : s.phase = .up)
    (hm : mayCall (.lifecycle k) op) (hc : s.ledger.calls (.lifecycle k) = none) :
    Wp cfg (.lifecycle k) (code cfg op) (Returns cfg (.lifecycle k) op)
      (s.record (·.begin (.lifecycle k) op s.instant)) := by
  have hcall : (s.record (·.begin (.lifecycle k) op s.instant)).ledger.calls (.lifecycle k) =
      some (s.ledger.count, op) := Function.update_self _ _ _
  have hprog : (s.record (·.begin (.lifecycle k) op s.instant)).ledger.progress k =
      { touched := (s.ledger.progress k).touched } := Function.update_self _ _ _
  have hfree := hi.free_start hc
  cases op with
  | createPod pod =>
    have h : Fresh k pod (s.record (·.begin (.lifecycle k) (.createPod pod) s.instant)) :=
      ⟨⟨⟨hup, of_decide_eq_true hm, ⟨_, .inl hcall⟩, hfree, by rw [hprog]⟩, by rw [hprog]⟩,
        by rw [hprog], fun _ ⟨_, hn⟩ => by rw [hcall] at hn; cases hn⟩
    refine Outline.wp_map (Outline.wp_mono (wp_createPod h) fun r s₁ h₁ => ?_)
    refine ⟨h₁.serving.live, h₁.serving.free, h₁.serving.inHand, h₁.caught, ?_⟩
    cases r with
    | error err => exact ⟨h₁.serving.key, h₁.failed err rfl⟩
    | ok u => exact ⟨h₁.serving.key, h₁.ok rfl⟩
  | updatePod pod =>
    have h : Untouched k pod (s.record (·.begin (.lifecycle k) (.updatePod pod) s.instant)) :=
      ⟨⟨hup, of_decide_eq_true hm, ⟨_, .inr hcall⟩, hfree, by rw [hprog]⟩, by rw [hprog]⟩
    refine Outline.wp_map (Outline.wp_mono
      (wp_updatePod h ⟨_, hcall⟩ (by rw [hprog]) (by rw [hprog])) fun r s₁ ⟨h₁, hd, hr, he⟩ => ?_)
    refine ⟨h₁.live, h₁.free, h₁.inHand, hd, ?_⟩
    cases r with
    | error err => exact ⟨h₁.key, he err rfl⟩
    | ok u => exact ⟨h₁.key, hr rfl⟩
  | deletePod pod =>
    have h : Deleting k pod (s.record (·.begin (.lifecycle k) (.deletePod pod) s.instant)) :=
      ⟨hup, of_decide_eq_true hm, ⟨_, hcall⟩, hfree, by rw [hprog]⟩
    refine Outline.wp_map (Outline.wp_mono (wp_deletePod h (by rw [hprog])) fun r s₁ h₁ => ?_)
    exact ⟨h₁.live, h₁.free, h₁.inHand, h₁.caught, by cases r <;> trivial⟩
  | _ => simp [mayCall] at hm

/-- The loops begin with nothing but their call. -/
theorem wp_code_loop (hi : Inv cfg s) (hup : s.phase = .up) (ht : t ≠ .boot)
    (hk : ∀ k, t ≠ .lifecycle k) (hm : mayCall t op) (hc : s.ledger.calls t = none) :
    Wp cfg t (code cfg op) (Returns cfg t op) (s.record (·.begin t op s.instant)) := by
  have h : Ticking t (s.record (·.begin t op s.instant)) :=
    ⟨live_of_up ht hup, by simp [State.record, Ledger.begin], hi.free_start hc, hk⟩
  cases t with
  | boot => exact absurd rfl ht
  | lifecycle k => exact absurd rfl (hk k)
  | verification n =>
    cases op with
    | claimVerification => exact (wp_claimVerificationTick h).tick ht hk
    | _ => simp [mayCall] at hm
  | leaseWatch n =>
    cases op with
    | publishExpiredLeases => exact (wp_publishExpiredLeases h).tick (f := fun _ => .ok) ht hk
    | _ => simp [mayCall] at hm
  | ownerRecheck =>
    cases op with
    | recheckOwners now base => exact (wp_recheckOwners h).tick (f := fun _ => .ok) ht hk
    | _ => simp [mayCall] at hm
  | orphanScan =>
    cases op with
    | orphanScan => exact (wp_orphanScan h).tick ht hk
    | _ => simp [mayCall] at hm
  | controller =>
    cases op with
    | notifyPods => exact (wp_notifyPods h).tick (f := fun _ => .ok) ht hk
    | _ => simp [mayCall] at hm

/-- Every call begins in the weakest precondition of its code. -/
theorem wp_code (hi : Inv cfg s) (h : apply (.started t op) s = some s') :
    Wp cfg t (code cfg op) (fun r s₁ => Guard cfg (.finished t op r) s₁) s' := by
  have hguard : s'.Live t → s'.ledger.calls t = some (s.ledger.count, op) →
      Wp cfg t (code cfg op) (Returns cfg t op) s' →
      Wp cfg t (code cfg op) (fun r s₁ => Guard cfg (.finished t op r) s₁) s' := fun hl hc hw =>
    Outline.wp_mono (hw.calls hl hc) fun _ _ ⟨hr, hc⟩ => ⟨hr.1, hr.2.1, ⟨_, hc⟩, hr.2.2⟩
  obtain ⟨rfl, rfl, hd, hc, rfl⟩ | ⟨hb, hup, hm, hc, rfl⟩ := apply_started h
  · exact hguard rfl (by simp [State.record, Ledger.boot, Ledger.begin]) (wp_code_new hi hd hc)
  · refine hguard (live_of_up hb hup) (Function.update_self _ _ _) ?_
    by_cases hk : ∃ k, t = .lifecycle k
    · obtain ⟨k, rfl⟩ := hk
      exact wp_code_lifecycle hi hup hm hc
    · exact wp_code_loop hi hup hb (fun k ht => hk ⟨k, ht⟩) hm hc

/-! ## Runs -/

/-- **The outline is a proof.** -/
theorem sound (cfg : Config) : Sound (outline cfg) where
  keeps := Inv.keeps
  allowed := Rely.of_event
  starts := fun hi h => ⟨trivial, wp_code hi h⟩
  crashes := fun _ => trivial

section Runs

variable {file : File} {tr : List Ev}
  {c : Interleave.Config State Memory Section Request Reply Tid Op Outcome}

/-- **Every event of every run meets its guard.** -/
theorem Runs.guarded (h : Runs cfg file tr c) :
    Guarded (outline cfg) (State.initial file) tr c.shared :=
  (sound cfg).guarded (inv_initial cfg file) h

/-- What every configuration of a run satisfies. -/
theorem Runs.good (h : Runs cfg file tr c) : Sound.Good (outline cfg) c :=
  ((sound cfg).run (Sound.good_idle (inv_initial cfg file)) h).1

/-- The step after a run is guarded. -/
theorem Runs.next {ev : Ev}
    {c' : Interleave.Config State Memory Section Request Reply Tid Op Outcome}
    (h : Runs cfg file tr c) (hs : Step (machine cfg) c ev c') :
    Guard cfg ev c.shared ∧ apply ev c.shared = some c'.shared := by
  obtain ⟨hg, ha, -⟩ := (sound cfg).step h.good hs
  exact ⟨hg, ha⟩

/-- So is whatever comes after it. -/
theorem Runs.after {tr' : List Ev}
    {c' : Interleave.Config State Memory Section Request Reply Tid Op Outcome}
    (h : Runs cfg file tr c) (h' : Run (machine cfg) c tr' c') :
    Guarded (outline cfg) c.shared tr' c'.shared := ((sound cfg).run h.good h').2

theorem Runs.inv (h : Runs cfg file tr c) : Inv cfg c.shared :=
  h.guarded.inv (sound cfg) (inv_initial cfg file)

end Runs

end VkSandbox
