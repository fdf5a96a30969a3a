import VkSandbox.Machinery.Journal

/-!
# Machinery/Solo — code that runs alone

While no other thread moves, each node of a program finds the state the node before it left, and the
program is a sequential one.  `Machine.Solo` is its weakest precondition; a postcondition sees the
events, the result and the state at the end.  `Run.solo` reads it off a run.
-/

namespace Interleave

variable {σ μ A E : Type} {Rep : E → Type} {Tid Op ρ : Type}

/-- **Run alone from `s`, after the events `l`, `p` ends in `Q`.** -/
def Machine.Solo (M : Machine σ μ A E Rep Tid Op ρ) (t : Tid) {α : Type}
    (Q : List (Event A E Rep Tid Op ρ) → α → σ → Prop) :
    Prog μ A E Rep α → List (Event A E Rep Tid Op ρ) → σ → Prop
  | .ret a, l, s => Q l a s
  | .read k, l, s => ∀ s', M.apply (.read t) s = some s' →
      Solo M t Q (k (M.mem s)) (l ++ [.read t]) s'
  | .lock a k, l, s => ∀ s', M.apply (.locked t a) s = some s' →
      Solo M t Q (k (M.mem s)) (l ++ [.locked t a]) s'
  | .ask e k, l, s => ∀ r s', M.apply (.asked t e r) s = some s' →
      Solo M t Q (k r) (l ++ [.asked t e r]) s'

namespace Machine.Solo

variable {M : Machine σ μ A E Rep Tid Op ρ} {t : Tid} {α β : Type}
  {l : List (Event A E Rep Tid Op ρ)} {s : σ}

theorem mono {p : Prog μ A E Rep α} {Q Q' : List (Event A E Rep Tid Op ρ) → α → σ → Prop}
    (h : M.Solo t Q p l s) (hq : ∀ l a s, Q l a s → Q' l a s) : M.Solo t Q' p l s := by
  induction p generalizing l s with
  | ret a => exact hq l a s h
  | read k ih => exact fun s' ha => ih _ (h s' ha)
  | lock a k ih => exact fun s' ha => ih _ (h s' ha)
  | ask e k ih => exact fun r s' ha => ih r (h r s' ha)

theorem bind {p : Prog μ A E Rep α} {f : α → Prog μ A E Rep β}
    {Q : List (Event A E Rep Tid Op ρ) → β → σ → Prop}
    (h : M.Solo t (fun l a s => M.Solo t Q (f a) l s) p l s) : M.Solo t Q (p >>= f) l s := by
  induction p generalizing l s with
  | ret a => exact h
  | read k ih => exact fun s' ha => ih _ (h s' ha)
  | lock a k ih => exact fun s' ha => ih _ (h s' ha)
  | ask e k ih => exact fun r s' ha => ih r (h r s' ha)

/-- The spec of a helper, used where it is called. -/
theorem call {p : Prog μ A E Rep α} {f : α → Prog μ A E Rep β}
    {P : List (Event A E Rep Tid Op ρ) → α → σ → Prop}
    {Q : List (Event A E Rep Tid Op ρ) → β → σ → Prop} (h : M.Solo t P p l s)
    (hf : ∀ l a s, P l a s → M.Solo t Q (f a) l s) : M.Solo t Q (p >>= f) l s :=
  bind (h.mono hf)

theorem map {p : Prog μ A E Rep α} {f : α → β}
    {Q : List (Event A E Rep Tid Op ρ) → β → σ → Prop}
    (h : M.Solo t (fun l a s => Q l (f a) s) p l s) : M.Solo t Q (f <$> p) l s := by
  induction p generalizing l s with
  | ret a => exact h
  | read k ih => exact fun s' ha => ih _ (h s' ha)
  | lock a k ih => exact fun s' ha => ih _ (h s' ha)
  | ask e k ih => exact fun r s' ha => ih r (h r s' ha)

/-- `if err := p; err != nil { return err }`. -/
theorem orReturn {ε : Type} {p : Prog μ A E Rep (Except ε α)}
    {q : α → Prog μ A E Rep (Except ε β)}
    {P : List (Event A E Rep Tid Op ρ) → Except ε α → σ → Prop}
    {Q : List (Event A E Rep Tid Op ρ) → Except ε β → σ → Prop} (h : M.Solo t P p l s)
    (herr : ∀ l err s, P l (.error err) s → Q l (.error err) s)
    (hok : ∀ l a s, P l (.ok a) s → M.Solo t Q (q a) l s) : M.Solo t Q (p.orReturn q) l s := by
  refine call h fun l a s hP => ?_
  cases a with
  | error err => exact herr l err s hP
  | ok a => exact hok l a s hP

end Machine.Solo

/-- **A call that is alone from its beginning** is at every moment on its way to `Q`. -/
theorem Run.solo [DecidableEq Tid] {M : Machine σ μ A E Rep Tid Op ρ} {t : Tid}
    {c c' : Config σ μ A E Rep Tid Op ρ} {tr l : List (Event A E Rep Tid Op ρ)}
    {Q : List (Event A E Rep Tid Op ρ) → ρ → σ → Prop} {op : Op} {p : Prog μ A E Rep ρ}
    (h : Run M c tr c') (halone : ∀ ev ∈ tr, ev.tid = some t) (hno : ∀ ev ∈ tr, ¬ ev.Resets t)
    (hp : c.tasks t = some (op, p)) (hsolo : M.Solo t Q p l c.shared) :
    ∃ p', c'.tasks t = some (op, p') ∧ M.Solo t Q p' (l ++ tr) c'.shared := by
  induction h with
  | nil => exact ⟨p, hp, by simpa using hsolo⟩
  | @snoc tr₁ c₁ ev c₂ h₁ hs ih =>
    obtain ⟨p₁, hp₁, hsolo₁⟩ := ih (fun ev hev => halone ev (List.mem_append_left _ hev))
      fun ev hev => hno ev (List.mem_append_left _ hev)
    have htid : ev.tid = some t := halone ev (by simp)
    have hres : ¬ ev.Resets t := hno ev (by simp)
    rw [← List.append_assoc]
    cases hs with
    | crashed => cases htid
    | started | finished => exact absurd (Option.some.inj htid) hres
    | read ht ha =>
      cases htid
      cases hp₁.symm.trans ht
      exact ⟨_, Function.update_self _ _ _, hsolo₁ _ ha⟩
    | locked ht ha =>
      cases htid
      cases hp₁.symm.trans ht
      exact ⟨_, Function.update_self _ _ _, hsolo₁ _ ha⟩
    | asked ht ha =>
      cases htid
      cases hp₁.symm.trans ht
      exact ⟨_, Function.update_self _ _ _, hsolo₁ _ _ ha⟩

/-- **Where there is no other thread**, the trace ends with the call in progress: its beginning, and
the events of its journal. -/
theorem Run.journal_alone [DecidableEq Tid] {M : Machine σ μ A E Rep Tid Op ρ} {t : Tid} {s₀ : σ}
    {c : Config σ μ A E Rep Tid Op ρ} {tr : List (Event A E Rep Tid Op ρ)}
    (h : Run M ⟨s₀, fun _ => none⟩ tr c) (halone : ∀ ev ∈ tr, ev.tid = some t) {op : Op}
    {p : Prog μ A E Rep ρ} (hp : c.tasks t = some (op, p)) :
    ∃ tr₁, tr = tr₁ ++ .started t op :: (M.journal t [] s₀ tr).map Prod.fst := by
  generalize hc : (⟨s₀, fun _ => none⟩ : Config σ μ A E Rep Tid Op ρ) = c₁ at h
  obtain rfl : s₀ = c₁.shared := by rw [← hc]
  induction h generalizing op p with
  | nil =>
    rw [← hc] at hp
    cases hp
  | @snoc tr c ev c' h hs ih =>
    have htid : ev.tid = some t := halone ev (by simp)
    have hold := fun {op p} => @ih (fun ev hev => halone ev (List.mem_append_left _ hev)) op p
    rw [h.journal_snoc hs]
    -- a step of the call itself is noted at the end of the journal
    have hown : ∀ {op' p'}, c.tasks t = some (op', p') → op' = op → ¬ ev.Resets t → ∃ tr₁,
        tr ++ [ev] = tr₁ ++ .started t op ::
          (note t (M.journal t [] c₁.shared tr) (ev, c.shared)).map Prod.fst := by
      rintro op' p' hp' rfl hres
      obtain ⟨tr₁, htr⟩ := hold hp'
      refine ⟨tr₁, ?_⟩
      rw [note_of_tid htid hres, List.map_append, ← List.cons_append, ← List.append_assoc, ← htr]
      rfl
    cases hs with
    | crashed => cases htid
    | started hidle ha =>
      cases htid
      simp only [Function.update_self, Option.some.injEq, Prod.mk.injEq] at hp
      refine ⟨tr, ?_⟩
      rw [hp.1]
      simp [note]
    | finished ht ha =>
      cases htid
      simp at hp
    | read ht ha | locked ht ha | asked ht ha =>
      cases htid
      simp only [Function.update_self, Option.some.injEq, Prod.mk.injEq] at hp
      exact hown ht hp.1 id

end Interleave
