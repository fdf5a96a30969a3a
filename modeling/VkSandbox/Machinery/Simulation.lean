import VkSandbox.Machinery.Journal

/-!
# Machinery/Simulation — one machine in the place of another

Two machines whose programs do the same things to related memories, the one under other names than
the other, with some of the threads left out:

    M    started t op   locked t a   read u   asked t e r   crashed
    M'   started t op'  locked t a'           asked t e' r' crashed        u is hidden

`Prog.Carries` relates two programs that differ in this way, by a recursion over both that is proved
by following their text.  `Simulation.run` turns it into a statement about whole runs: **what `M`
does, with the hidden threads left out and the names replaced, `M'` does too**.
-/

namespace Interleave

variable {μ A E : Type} {Rep : E → Type} {μ' A' E' : Type} {Rep' : E' → Type}
  {σ σ' Tid Op Op' ρ ρ' : Type} {α β α' β' : Type}

/-- Which memories belong together, and what a section, a request and a reply are called on the
other side. -/
structure Translation (μ A E : Type) (Rep : E → Type) (μ' A' E' : Type) (Rep' : E' → Type) where
  Mem : μ → μ' → Prop
  sec : A → A'
  req : E → E'
  rep : (e : E) → Rep e → Rep' (req e)

/-! ## Programs -/

/-- **`p'` does under the other names what `p` does**, and returns what `Q` says. -/
inductive Prog.Carries (T : Translation μ A E Rep μ' A' E' Rep') (Q : α → α' → Prop) :
    Prog μ A E Rep α → Prog μ' A' E' Rep' α' → Prop where
  | ret {a a'} : Q a a' → Carries T Q (.ret a) (.ret a')
  | read {k k'} : (∀ m m', T.Mem m m' → Carries T Q (k m) (k' m')) →
      Carries T Q (.read k) (.read k')
  | lock {a k k'} : (∀ m m', T.Mem m m' → Carries T Q (k m) (k' m')) →
      Carries T Q (.lock a k) (.lock (T.sec a) k')
  | ask {e k k'} : (∀ r, Carries T Q (k r) (k' (T.rep e r))) →
      Carries T Q (.ask e k) (.ask (T.req e) k')

namespace Prog.Carries

variable {T : Translation μ A E Rep μ' A' E' Rep'}

/-- A sequence, one program after the other. -/
theorem bind {P : α → α' → Prop} {Q : β → β' → Prop} {p : Prog μ A E Rep α}
    {p' : Prog μ' A' E' Rep' α'} {f : α → Prog μ A E Rep β} {f' : α' → Prog μ' A' E' Rep' β'}
    (h : p.Carries T P p') (hf : ∀ a a', P a a' → (f a).Carries T Q (f' a')) :
    (p >>= f).Carries T Q (p' >>= f') := by
  induction h with
  | ret ha => exact hf _ _ ha
  | read _ ih => exact .read ih
  | lock _ ih => exact .lock ih
  | ask _ ih => exact .ask ih

theorem mono {P Q : α → α' → Prop} {p : Prog μ A E Rep α} {p' : Prog μ' A' E' Rep' α'}
    (h : p.Carries T P p') (hPQ : ∀ a a', P a a' → Q a a') : p.Carries T Q p' := by
  induction h with
  | ret ha => exact .ret (hPQ _ _ ha)
  | read _ ih => exact .read ih
  | lock _ ih => exact .lock ih
  | ask _ ih => exact .ask ih

theorem map {Q : β → β' → Prop} {p : Prog μ A E Rep α} {p' : Prog μ' A' E' Rep' α'} {f : α → β}
    {f' : α' → β'} (h : p.Carries T (fun a a' => Q (f a) (f' a')) p') :
    (f <$> p).Carries T Q (f' <$> p') := h.bind fun _ _ ha => .ret ha

theorem look {Q : β → β' → Prop} {f : μ → α} {f' : μ' → α'} {g : α → Prog μ A E Rep β}
    {g' : α' → Prog μ' A' E' Rep' β'}
    (h : ∀ m m', T.Mem m m' → (g (f m)).Carries T Q (g' (f' m'))) :
    (Prog.look f >>= g).Carries T Q (Prog.look f' >>= g') := .read h

theorem enter {Q : β → β' → Prop} {a : A} {f : μ → α} {f' : μ' → α'} {g : α → Prog μ A E Rep β}
    {g' : α' → Prog μ' A' E' Rep' β'}
    (h : ∀ m m', T.Mem m m' → (g (f m)).Carries T Q (g' (f' m'))) :
    (Prog.enter a f >>= g).Carries T Q (Prog.enter (T.sec a) f' >>= g') := .lock h

/-- `if err := p; err != nil { return err }`, on both sides. -/
theorem orReturn {ε : Type} {p : Prog μ A E Rep (Except ε α)} {p' : Prog μ' A' E' Rep' (Except ε α)}
    {q : α → Prog μ A E Rep (Except ε β)} {q' : α → Prog μ' A' E' Rep' (Except ε β)}
    (hp : p.Carries T (fun a a' => a' = a) p')
    (hq : ∀ a, (q a).Carries T (fun b b' => b' = b) (q' a)) :
    (p.orReturn q).Carries T (fun b b' => b' = b) (p'.orReturn q') := by
  refine hp.bind fun a a' ha => ?_
  subst ha
  cases a' with
  | error err => exact .ret rfl
  | ok a => exact hq a

end Prog.Carries

/-! ## Machines -/

/-- The other side's name for an event. -/
def Translation.event (T : Translation μ A E Rep μ' A' E' Rep') (op : Op → Op') (out : ρ → ρ') :
    Event A E Rep Tid Op ρ → Event A' E' Rep' Tid Op' ρ'
  | .started t o => .started t (op o)
  | .read t => .read t
  | .locked t a => .locked t (T.sec a)
  | .asked t e r => .asked t (T.req e) (T.rep e r)
  | .finished t o r => .finished t (op o) (out r)
  | .crashed => .crashed

/-- **`M'` simulates `M`**: the events of the threads that are not hidden are matched, those of the
hidden ones change nothing that matters.  `guard` is what is known of the events of a run. -/
structure Simulation (M : Machine σ μ A E Rep Tid Op ρ) (M' : Machine σ' μ' A' E' Rep' Tid Op' ρ')
    (T : Translation μ A E Rep μ' A' E' Rep') where
  op : Op → Op'
  out : ρ → ρ'
  hidden : Tid → Bool
  State : σ → σ' → Prop
  guard : σ → Event A E Rep Tid Op ρ → Prop
  mem : ∀ {s s'}, State s s' → T.Mem (M.mem s) (M'.mem s')
  code : ∀ {t o s s₁}, hidden t = false → M.apply (.started t o) s = some s₁ →
    (M.code o).Carries T (fun r r' => r' = out r) (M'.code (op o))
  shown : ∀ {ev s s' s₁}, State s s' → guard s ev → ev.tid.all (hidden · = false) →
    M.apply ev s = some s₁ → ∃ s₁', M'.apply (T.event op out ev) s' = some s₁' ∧ State s₁ s₁'
  unseen : ∀ {ev s s' s₁ t}, State s s' → guard s ev → ev.tid = some t → hidden t = true →
    M.apply ev s = some s₁ → State s₁ s'

namespace Simulation

variable {M : Machine σ μ A E Rep Tid Op ρ} {M' : Machine σ' μ' A' E' Rep' Tid Op' ρ'}
  {T : Translation μ A E Rep μ' A' E' Rep'}

/-- What `M'` does for an event of `M`. -/
def event (S : Simulation M M' T) (ev : Event A E Rep Tid Op ρ) :
    Option (Event A' E' Rep' Tid Op' ρ') :=
  if ev.tid.all (S.hidden · = false) then some (T.event S.op S.out ev) else none

/-- The states are related, the calls that are not hidden are the same, and there are no others. -/
structure Related (S : Simulation M M' T) (c : Config σ μ A E Rep Tid Op ρ)
    (d : Config σ' μ' A' E' Rep' Tid Op' ρ') : Prop where
  shared : S.State c.shared d.shared
  idle : ∀ {t}, S.hidden t = true ∨ c.tasks t = none → d.tasks t = none
  busy : ∀ {t o p}, S.hidden t = false → c.tasks t = some (o, p) →
    ∃ p', d.tasks t = some (S.op o, p') ∧ p.Carries T (fun r r' => r' = S.out r) p'

variable [DecidableEq Tid] {S : Simulation M M' T} {c c₁ : Config σ μ A E Rep Tid Op ρ}
  {d : Config σ' μ' A' E' Rep' Tid Op' ρ'} {ev : Event A E Rep Tid Op ρ} {t : Tid}

/-- One thread goes on, on both sides. -/
theorem Related.update (h : S.Related c d) {s : σ} {s' : σ'} {task : Option (Op × Prog μ A E Rep ρ)}
    {task' : Option (Op' × Prog μ' A' E' Rep' ρ')} (hs : S.State s s') (ht : S.hidden t = false)
    (hidle : task = none → task' = none)
    (hbusy : ∀ {o p}, task = some (o, p) →
      ∃ p', task' = some (S.op o, p') ∧ p.Carries T (fun r r' => r' = S.out r) p') :
    S.Related ⟨s, Function.update c.tasks t task⟩ ⟨s', Function.update d.tasks t task'⟩ := by
  refine ⟨hs, fun {u} hu => ?_, fun {u o p} hu hp => ?_⟩
  · dsimp only at hu ⊢
    by_cases htu : u = t
    · subst htu
      rw [Function.update_self] at hu ⊢
      obtain hh | hn := hu
      · rw [ht] at hh
        cases hh
      · exact hidle hn
    · rw [Function.update_of_ne htu] at hu ⊢
      exact h.idle hu
  · dsimp only at hp ⊢
    by_cases htu : u = t
    · subst htu
      rw [Function.update_self] at hp ⊢
      exact hbusy hp
    · rw [Function.update_of_ne htu] at hp ⊢
      exact h.busy hu hp

/-- A hidden thread goes on, on one side only. -/
theorem Related.hide (h : S.Related c d) {s : σ} {task : Option (Op × Prog μ A E Rep ρ)}
    (hs : S.State s d.shared) (ht : S.hidden t = true) :
    S.Related ⟨s, Function.update c.tasks t task⟩ d := by
  have hne : ∀ {u}, S.hidden u = false → u ≠ t := by
    rintro u hu rfl
    rw [ht] at hu
    cases hu
  refine ⟨hs, fun {u} hu => ?_, fun {u o p} hu hp => ?_⟩
  · cases hh : S.hidden u with
    | true => exact h.idle (.inl hh)
    | false =>
      obtain hh' | hn := hu
      · rw [hh] at hh'
        cases hh'
      · dsimp only at hn
        rw [Function.update_of_ne (hne hh)] at hn
        exact h.idle (.inr hn)
  · dsimp only at hp
    rw [Function.update_of_ne (hne hu)] at hp
    exact h.busy hu hp

/-- A step of a hidden thread. -/
theorem Related.step_hidden (h : S.Related c d) (hs : Step M c ev c₁) (hg : S.guard c.shared ev)
    (ht : ev.tid = some t) (hh : S.hidden t = true) : S.Related c₁ d := by
  have hst := S.unseen h.shared hg ht hh hs.apply
  cases hs with
  | crashed => cases ht
  | _ => cases ht; exact h.hide hst hh

/-- **A step that is not hidden is matched.** -/
theorem Related.step_shown (h : S.Related c d) (hs : Step M c ev c₁) (hg : S.guard c.shared ev)
    (hv : ev.tid.all (S.hidden · = false)) :
    ∃ d₁, Step M' d (T.event S.op S.out ev) d₁ ∧ S.Related c₁ d₁ := by
  obtain ⟨s', ha, hst⟩ := S.shown h.shared hg hv hs.apply
  cases hs with
  | crashed =>
    refine ⟨_, .crashed ha, hst, fun _ => rfl, fun _ hp => ?_⟩
    cases hp
  | started hidle hap =>
    have ht := of_decide_eq_true hv
    refine ⟨_, .started (h.idle (.inr hidle)) ha,
      h.update hst ht (fun hn => by cases hn) fun he => ?_⟩
    cases he
    exact ⟨_, rfl, S.code ht hap⟩
  | finished hp =>
    have ht := of_decide_eq_true hv
    obtain ⟨p', hp', hc⟩ := h.busy ht hp
    cases hc with
    | ret hr =>
      subst hr
      exact ⟨_, .finished hp' ha, h.update hst ht (fun _ => rfl) fun he => by cases he⟩
  | read hp =>
    have ht := of_decide_eq_true hv
    obtain ⟨p', hp', hc⟩ := h.busy ht hp
    cases hc with
    | read hk =>
      refine ⟨_, .read hp' ha, h.update hst ht (fun hn => by cases hn) fun he => ?_⟩
      cases he
      exact ⟨_, rfl, hk _ _ (S.mem h.shared)⟩
  | locked hp =>
    have ht := of_decide_eq_true hv
    obtain ⟨p', hp', hc⟩ := h.busy ht hp
    cases hc with
    | lock hk =>
      refine ⟨_, .locked hp' ha, h.update hst ht (fun hn => by cases hn) fun he => ?_⟩
      cases he
      exact ⟨_, rfl, hk _ _ (S.mem h.shared)⟩
  | asked hp =>
    have ht := of_decide_eq_true hv
    obtain ⟨p', hp', hc⟩ := h.busy ht hp
    cases hc with
    | ask hk =>
      refine ⟨_, .asked hp' ha, h.update hst ht (fun hn => by cases hn) fun he => ?_⟩
      cases he
      exact ⟨_, rfl, hk _⟩

/-- **Every run is matched**, with the hidden threads left out. -/
theorem run {tr : List (Event A E Rep Tid Op ρ)} (hrun : Run M c tr c₁) (h : S.Related c d)
    (hg : ∀ {tr c₂ ev c₃}, Run M c tr c₂ → Step M c₂ ev c₃ → S.guard c₂.shared ev) :
    ∃ d₁, Run M' d (tr.filterMap S.event) d₁ ∧ S.Related c₁ d₁ := by
  induction hrun with
  | nil => exact ⟨d, .nil, h⟩
  | @snoc tr c₂ ev c₃ hrun hs ih =>
    obtain ⟨d₂, hrun', h₂⟩ := ih
    rw [List.filterMap_append]
    by_cases hv : ev.tid.all (S.hidden · = false) = true
    · obtain ⟨d₃, hs', h₃⟩ := h₂.step_shown hs (hg hrun hs) hv
      have he : S.event ev = some (T.event S.op S.out ev) := if_pos hv
      rw [List.filterMap_cons_some he, List.filterMap_nil]
      exact ⟨d₃, hrun'.snoc hs', h₃⟩
    · have he : S.event ev = none := if_neg hv
      rw [List.filterMap_cons_none he, List.filterMap_nil, List.append_nil]
      refine ⟨d₂, hrun', ?_⟩
      cases htid : ev.tid with
      | none => rw [htid] at hv; exact absurd rfl hv
      | some t =>
        rw [htid] at hv
        exact h₂.step_hidden hs (hg hrun hs) htid (by simpa using hv)

end Simulation

end Interleave
