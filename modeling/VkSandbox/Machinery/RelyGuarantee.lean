import VkSandbox.Machinery.Prog

/-!
# Machinery/RelyGuarantee — pre- and postconditions for interleaved programs

    Inv          what holds of the shared state at all times
    Rely t       what the threads other than `t` may do while `t` waits
    Guard ev     what a thread must know of the state before it performs `ev`

`wp t p Q s` says that `p`, run by `t` from `s`, meets every guard on the way and ends in `Q`, under
any interference `Rely t` allows.  It is a recursion over the program, so a program is verified by
following its text: `wp_bind` splits a sequence, `wp_mono` weakens a postcondition, and no rule
mentions a schedule.  `Sound.guarded` pays for that once and for all: if every guarded event keeps
`Inv` and is an interference the other threads allow for, then **every event of every run meets its
guard**.
-/

namespace Interleave

variable {σ μ A E : Type} {Rep : E → Type} {Tid Op ρ : Type}

/-- A thread-modular proof outline for `M`. -/
structure Outline (M : Machine σ μ A E Rep Tid Op ρ) where
  Inv : σ → Prop
  Rely : Tid → σ → σ → Prop
  Guard : Event A E Rep Tid Op ρ → σ → Prop
  rely_refl : ∀ t s, Rely t s s
  rely_trans : ∀ {t s₁ s₂ s₃}, Rely t s₁ s₂ → Rely t s₂ s₃ → Rely t s₁ s₃

namespace Outline

variable {M : Machine σ μ A E Rep Tid Op ρ} (O : Outline M) {t : Tid} {α β : Type}

/-- **The weakest precondition** of a program run by `t`: whatever the others do before each node,
the node meets its guard, and so does the rest. -/
def wp (t : Tid) : Prog μ A E Rep α → (α → σ → Prop) → σ → Prop
  | .ret a, Q, s => ∀ s₁, O.Rely t s s₁ → O.Inv s₁ → Q a s₁
  | .read k, Q, s => ∀ s₁, O.Rely t s s₁ → O.Inv s₁ → O.Guard (.read t) s₁ ∧
      ∀ s₂, M.apply (.read t) s₁ = some s₂ → wp t (k (M.mem s₁)) Q s₂
  | .lock a k, Q, s => ∀ s₁, O.Rely t s s₁ → O.Inv s₁ → O.Guard (.locked t a) s₁ ∧
      ∀ s₂, M.apply (.locked t a) s₁ = some s₂ → wp t (k (M.mem s₁)) Q s₂
  | .ask e k, Q, s => ∀ s₁, O.Rely t s s₁ → O.Inv s₁ → ∀ r s₂,
      M.apply (.asked t e r) s₁ = some s₂ → O.Guard (.asked t e r) s₁ ∧ wp t (k r) Q s₂

variable {O}

/-- Interference does not spoil a weakest precondition. -/
theorem wp_stable {p : Prog μ A E Rep α} {Q : α → σ → Prop} {s s' : σ} (h : O.wp t p Q s)
    (hr : O.Rely t s s') : O.wp t p Q s' := by
  cases p with
  | ret a => exact fun s₁ h₁ => h s₁ (O.rely_trans hr h₁)
  | read k => exact fun s₁ h₁ => h s₁ (O.rely_trans hr h₁)
  | lock a k => exact fun s₁ h₁ => h s₁ (O.rely_trans hr h₁)
  | ask e k => exact fun s₁ h₁ => h s₁ (O.rely_trans hr h₁)

/-- A weakest precondition may be shown after the interference that precedes the program, where the
invariant is at hand. -/
theorem wp_delay {p : Prog μ A E Rep α} {Q : α → σ → Prop} {s : σ}
    (h : ∀ s₁, O.Rely t s s₁ → O.Inv s₁ → O.wp t p Q s₁) : O.wp t p Q s := by
  cases p with
  | ret a => exact fun s₁ h₁ hi => h s₁ h₁ hi s₁ (O.rely_refl t s₁) hi
  | read k => exact fun s₁ h₁ hi => h s₁ h₁ hi s₁ (O.rely_refl t s₁) hi
  | lock a k => exact fun s₁ h₁ hi => h s₁ h₁ hi s₁ (O.rely_refl t s₁) hi
  | ask e k => exact fun s₁ h₁ hi => h s₁ h₁ hi s₁ (O.rely_refl t s₁) hi

/-- A stronger postcondition is harder to reach. -/
theorem wp_mono {p : Prog μ A E Rep α} {Q Q' : α → σ → Prop} {s : σ} (h : O.wp t p Q s)
    (hq : ∀ a s', Q a s' → Q' a s') : O.wp t p Q' s := by
  induction p generalizing s with
  | ret a => exact fun s₁ h₁ hi => hq a s₁ (h s₁ h₁ hi)
  | read k ih => exact fun s₁ h₁ hi => ⟨(h s₁ h₁ hi).1, fun s₂ hs => ih _ ((h s₁ h₁ hi).2 s₂ hs)⟩
  | lock a k ih => exact fun s₁ h₁ hi => ⟨(h s₁ h₁ hi).1, fun s₂ hs => ih _ ((h s₁ h₁ hi).2 s₂ hs)⟩
  | ask e k ih =>
    exact fun s₁ h₁ hi r s₂ hs => ⟨(h s₁ h₁ hi r s₂ hs).1, ih r (h s₁ h₁ hi r s₂ hs).2⟩

/-- **A sequence is verified one program after the other.** -/
theorem wp_bind {p : Prog μ A E Rep α} {f : α → Prog μ A E Rep β} {Q : β → σ → Prop} {s : σ}
    (h : O.wp t p (fun a s' => O.wp t (f a) Q s') s) : O.wp t (p >>= f) Q s := by
  induction p generalizing s with
  | ret a => exact wp_delay fun s₁ h₁ hi => h s₁ h₁ hi
  | read k ih => exact fun s₁ h₁ hi => ⟨(h s₁ h₁ hi).1, fun s₂ hs => ih _ ((h s₁ h₁ hi).2 s₂ hs)⟩
  | lock a k ih => exact fun s₁ h₁ hi => ⟨(h s₁ h₁ hi).1, fun s₂ hs => ih _ ((h s₁ h₁ hi).2 s₂ hs)⟩
  | ask e k ih =>
    exact fun s₁ h₁ hi r s₂ hs => ⟨(h s₁ h₁ hi r s₂ hs).1, ih r (h s₁ h₁ hi r s₂ hs).2⟩

/-- The spec of a helper, used where it is called. -/
theorem wp_call {p : Prog μ A E Rep α} {f : α → Prog μ A E Rep β} {Q : β → σ → Prop}
    {P : α → σ → Prop} {s : σ} (h : O.wp t p P s) (hf : ∀ a s', P a s' → O.wp t (f a) Q s') :
    O.wp t (p >>= f) Q s :=
  wp_bind (wp_mono h hf)

theorem wp_ret {a : α} {Q : α → σ → Prop} {s : σ}
    (h : ∀ s₁, O.Rely t s s₁ → O.Inv s₁ → Q a s₁) : O.wp t (.ret a : Prog μ A E Rep α) Q s := h

/-- Renaming the result adds no step. -/
theorem wp_map {p : Prog μ A E Rep α} {f : α → β} {Q : β → σ → Prop} {s : σ}
    (h : O.wp t p (fun a s' => Q (f a) s') s) : O.wp t (f <$> p) Q s := by
  induction p generalizing s with
  | ret a => exact h
  | read k ih => exact fun s₁ h₁ hi => ⟨(h s₁ h₁ hi).1, fun s₂ hs => ih _ ((h s₁ h₁ hi).2 s₂ hs)⟩
  | lock a k ih => exact fun s₁ h₁ hi => ⟨(h s₁ h₁ hi).1, fun s₂ hs => ih _ ((h s₁ h₁ hi).2 s₂ hs)⟩
  | ask e k ih =>
    exact fun s₁ h₁ hi r s₂ hs => ⟨(h s₁ h₁ hi r s₂ hs).1, ih r (h s₁ h₁ hi r s₂ hs).2⟩

/-- `if err := p; err != nil { return err }`: an error ends the call, success goes on. -/
theorem wp_orReturn {ε : Type} {p : Prog μ A E Rep (Except ε α)}
    {q : α → Prog μ A E Rep (Except ε β)} {Q : Except ε β → σ → Prop}
    {P : Except ε α → σ → Prop} {s : σ} (h : O.wp t p P s)
    (herr : ∀ err s₁ s₂, P (.error err) s₁ → O.Rely t s₁ s₂ → O.Inv s₂ → Q (.error err) s₂)
    (hok : ∀ a s', P (.ok a) s' → O.wp t (q a) Q s') : O.wp t (p.orReturn q) Q s := by
  refine wp_call h fun a s' hP => ?_
  cases a with
  | error err => exact wp_ret fun s₂ h₂ hi => herr err s' s₂ hP h₂ hi
  | ok a => exact hok a s' hP

end Outline

/-! ## Soundness -/

/-- The shared states a trace leads through, every event meeting its guard. -/
inductive Guarded {M : Machine σ μ A E Rep Tid Op ρ} (O : Outline M) (s₀ : σ) :
    List (Event A E Rep Tid Op ρ) → σ → Prop where
  | nil : Guarded O s₀ [] s₀
  | snoc {tr s ev s'} : Guarded O s₀ tr s → O.Guard ev s → M.apply ev s = some s' →
      Guarded O s₀ (tr ++ [ev]) s'

/-- What makes an outline a proof: guarded events keep the invariant and are interference the other
threads allow for; a call starts in its weakest precondition, and returns under its guard. -/
structure Sound {M : Machine σ μ A E Rep Tid Op ρ} (O : Outline M) : Prop where
  keeps : ∀ {ev s s'}, O.Inv s → O.Guard ev s → M.apply ev s = some s' → O.Inv s'
  allowed : ∀ {ev s s' t u}, O.Inv s → O.Guard ev s → M.apply ev s = some s' →
    ev.tid = some u → u ≠ t → O.Rely t s s'
  starts : ∀ {t op s s'}, O.Inv s → M.apply (.started t op) s = some s' →
    O.Guard (.started t op) s ∧
      O.wp t (M.code op) (fun r s₁ => O.Guard (.finished t op r) s₁) s'
  crashes : ∀ {s}, O.Inv s → O.Guard .crashed s

namespace Sound

variable {M : Machine σ μ A E Rep Tid Op ρ} {O : Outline M}

/-- What every reachable configuration satisfies: the invariant, and of each running call the
weakest precondition of what is left of it. -/
def Good (O : Outline M) (c : Config σ μ A E Rep Tid Op ρ) : Prop :=
  O.Inv c.shared ∧ ∀ t op p, c.tasks t = some (op, p) →
    O.wp t p (fun r s => O.Guard (.finished t op r) s) c.shared

/-- Before any call there is only the invariant to show. -/
theorem good_idle {s₀ : σ} (h₀ : O.Inv s₀) :
    Good O (⟨s₀, fun _ => none⟩ : Config σ μ A E Rep Tid Op ρ) :=
  ⟨h₀, fun _ _ _ ht => by cases ht⟩

variable [DecidableEq Tid]

/-- Replacing one thread's task keeps `Good`, once the event is known to be guarded. -/
theorem good_update (hO : Sound O) {c : Config σ μ A E Rep Tid Op ρ} (hc : Good O c)
    {ev : Event A E Rep Tid Op ρ} {t : Tid} {s : σ} {task : Option (Op × Prog μ A E Rep ρ)}
    (hg : O.Guard ev c.shared) (hs : M.apply ev c.shared = some s) (ht : ev.tid = some t)
    (hw : ∀ op p, task = some (op, p) → O.wp t p (fun r s => O.Guard (.finished t op r) s) s) :
    Good O ⟨s, Function.update c.tasks t task⟩ := by
  refine ⟨hO.keeps hc.1 hg hs, fun u op p hu => ?_⟩
  by_cases h : u = t
  · subst h
    simp only [Function.update_self] at hu
    exact hw op p hu
  · simp only [Function.update_of_ne h] at hu
    exact Outline.wp_stable (hc.2 u op p hu) (hO.allowed hc.1 hg hs ht (Ne.symm h))

/-- **One step**: the event meets its guard, and `Good` survives. -/
theorem step (hO : Sound O) {c c' : Config σ μ A E Rep Tid Op ρ} {ev : Event A E Rep Tid Op ρ}
    (hc : Good O c) (h : Step M c ev c') :
    O.Guard ev c.shared ∧ M.apply ev c.shared = some c'.shared ∧ Good O c' := by
  have hrefl : ∀ t, O.Rely t c.shared c.shared := fun t => O.rely_refl t c.shared
  cases h with
  | @started t op s _ hs =>
    obtain ⟨hg, hw⟩ := hO.starts hc.1 hs
    exact ⟨hg, hs, hO.good_update hc hg hs rfl fun op' p he => by cases he; exact hw⟩
  | @read t op k s ht hs =>
    obtain ⟨hg, hw⟩ := hc.2 t op _ ht c.shared (hrefl t) hc.1
    exact ⟨hg, hs, hO.good_update hc hg hs rfl fun op' p he => by cases he; exact hw s hs⟩
  | @locked t op a k s ht hs =>
    obtain ⟨hg, hw⟩ := hc.2 t op _ ht c.shared (hrefl t) hc.1
    exact ⟨hg, hs, hO.good_update hc hg hs rfl fun op' p he => by cases he; exact hw s hs⟩
  | @asked t op e k r s ht hs =>
    obtain ⟨hg, hw⟩ := hc.2 t op _ ht c.shared (hrefl t) hc.1 r s hs
    exact ⟨hg, hs, hO.good_update hc hg hs rfl fun op' p he => by cases he; exact hw⟩
  | @finished t op r s ht hs =>
    have hg := hc.2 t op _ ht c.shared (hrefl t) hc.1
    exact ⟨hg, hs, hO.good_update hc hg hs rfl fun op' p he => by cases he⟩
  | crashed hs =>
    have hg := hO.crashes hc.1
    exact ⟨hg, hs, hO.keeps hc.1 hg hs, fun _ _ _ ht => by cases ht⟩

/-- `Good` holds along every run, and the run is a guarded one. -/
theorem run (hO : Sound O) {c₀ c : Config σ μ A E Rep Tid Op ρ}
    {tr : List (Event A E Rep Tid Op ρ)} (h₀ : Good O c₀) (h : Run M c₀ tr c) :
    Good O c ∧ Guarded O c₀.shared tr c.shared := by
  induction h with
  | nil => exact ⟨h₀, .nil⟩
  | snoc _ hs ih =>
    obtain ⟨hg, ha, hc'⟩ := hO.step ih.1 hs
    exact ⟨hc', ih.2.snoc hg ha⟩

/-- **Every event of every run meets its guard**, started with no call in progress. -/
theorem guarded (hO : Sound O) {s₀ : σ} {c : Config σ μ A E Rep Tid Op ρ}
    {tr : List (Event A E Rep Tid Op ρ)} (h₀ : O.Inv s₀) (h : Run M ⟨s₀, fun _ => none⟩ tr c) :
    Guarded O s₀ tr c.shared :=
  (hO.run (good_idle h₀) h).2

end Sound

/-! ## Invariants of guarded runs -/

namespace Guarded

variable {M : Machine σ μ A E Rep Tid Op ρ} {O : Outline M} {s₀ s : σ}
  {tr : List (Event A E Rep Tid Op ρ)}

/-- The outline's own invariant, along a guarded run. -/
theorem inv (hO : Sound O) (h₀ : O.Inv s₀) (h : Guarded O s₀ tr s) : O.Inv s := by
  induction h with
  | nil => exact h₀
  | snoc _ hg ha ih => exact hO.keeps ih hg ha

/-- **The invariant rule**, for a property of the trace and the state: what holds at the start and
survives every guarded event holds of every run. -/
theorem induct (hO : Sound O) (h₀ : O.Inv s₀) {J : List (Event A E Rep Tid Op ρ) → σ → Prop}
    (hJ : J [] s₀)
    (hstep : ∀ tr ev s s', O.Inv s → J tr s → O.Guard ev s → M.apply ev s = some s' →
      J (tr ++ [ev]) s')
    (h : Guarded O s₀ tr s) : J tr s := by
  induction h with
  | nil => exact hJ
  | snoc h' hg ha ih => exact hstep _ _ _ _ (h'.inv hO h₀) ih hg ha

/-- The rule for a property of the state. -/
theorem invariant (hO : Sound O) (h₀ : O.Inv s₀) {J : σ → Prop} (hJ : J s₀)
    (hstep : ∀ ev s s', O.Inv s → J s → O.Guard ev s → M.apply ev s = some s' → J s')
    (h : Guarded O s₀ tr s) : J s :=
  h.induct hO h₀ (J := fun _ => J) hJ fun _ => hstep

/-- The same for runs all of whose events satisfy `P`. -/
theorem invariant_of (hO : Sound O) (h₀ : O.Inv s₀) {P : Event A E Rep Tid Op ρ → Prop}
    {J : σ → Prop} (hJ : J s₀)
    (hstep : ∀ ev s s', P ev → O.Inv s → J s → O.Guard ev s → M.apply ev s = some s' → J s')
    (h : Guarded O s₀ tr s) (hP : ∀ ev ∈ tr, P ev) : J s :=
  h.induct hO h₀ (J := fun tr s => (∀ ev ∈ tr, P ev) → J s) (fun _ => hJ)
    (fun _ ev _ _ hi ih hg ha hP => hstep _ _ _ (hP ev (by simp)) hi
      (ih fun ev' hev => hP ev' (List.mem_append_left _ hev)) hg ha) hP

/-- What holds along a trace holds along what is left of it. -/
theorem along {C : Event A E Rep Tid Op ρ → σ → Prop} {tr' : List (Event A E Rep Tid Op ρ)}
    (h : Guarded O s₀ tr s) (hC : M.Along C s₀ (tr ++ tr')) : M.Along C s tr' := by
  induction h generalizing tr' with
  | nil => exact hC
  | snoc h' hg ha ih =>
    rw [List.append_assoc] at hC
    exact (ih hC).tail ha

/-- **The invariant rule for conditioned runs**: every event meets `C` in the state it finds. -/
theorem induct_along (hO : Sound O) (h₀ : O.Inv s₀) {C : Event A E Rep Tid Op ρ → σ → Prop}
    {J : List (Event A E Rep Tid Op ρ) → σ → Prop} (hJ : J [] s₀)
    (hstep : ∀ tr ev s s', C ev s → O.Inv s → J tr s → O.Guard ev s → M.apply ev s = some s' →
      J (tr ++ [ev]) s')
    (h : Guarded O s₀ tr s) (hC : M.Along C s₀ tr) : J tr s := by
  induction h with
  | nil => exact hJ
  | snoc h' hg ha ih =>
    exact hstep _ _ _ _ (h'.along hC).head (h'.inv hO h₀) (ih hC.left) hg ha

/-- The same for a property of the state. -/
theorem invariant_along (hO : Sound O) (h₀ : O.Inv s₀) {C : Event A E Rep Tid Op ρ → σ → Prop}
    {J : σ → Prop} (hJ : J s₀)
    (hstep : ∀ ev s s', C ev s → O.Inv s → J s → O.Guard ev s → M.apply ev s = some s' → J s')
    (h : Guarded O s₀ tr s) (hC : M.Along C s₀ tr) : J s :=
  h.induct_along hO h₀ (J := fun _ => J) hJ (fun _ => hstep) hC

end Guarded

end Interleave
