import VkSandbox.Machinery.Journal

/-!
# Machinery/Performs — one stretch of code inside a call

A call runs through one helper after another, and the other threads move between any two nodes of
each.  `Machine.Performs t p l p'` follows one of them on its own: `p`, run by `t`, performs the
entries `l` and is left as `p'`.

    trace      read u   read t   locked u a   asked t e r   locked t b
    performed           (read t, s₁)          (asked t e r, s₃)   (locked t b, s₄)

`Executes` is a stretch of a run in which `t` performs `p` to its end; a call that is about to run
`p` goes through one (`Run.executes`).  `Executes.text` carries over what the text of `p` says
(`Machine.Follows`), and `Machine.track` decides whether a trace performs a program.
-/

namespace Interleave

variable {σ μ A E : Type} {Rep : E → Type} {Tid Op ρ : Type} {α β : Type}

/-- **`p`, run by `t`, performs the entries `l`** and is left as the last program. -/
inductive Machine.Performs (M : Machine σ μ A E Rep Tid Op ρ) (t : Tid) :
    Prog μ A E Rep α → List (Event A E Rep Tid Op ρ × σ) → Prog μ A E Rep α → Prop where
  | nil {p} : Performs M t p [] p
  | read {k s l p} : Performs M t (k (M.mem s)) l p →
      Performs M t (.read k) ((.read t, s) :: l) p
  | lock {a k s l p} : Performs M t (k (M.mem s)) l p →
      Performs M t (.lock a k) ((.locked t a, s) :: l) p
  | ask {e k r s l p} : Performs M t (k r) l p →
      Performs M t (.ask e k) ((.asked t e r, s) :: l) p

namespace Machine.Performs

variable {M : Machine σ μ A E Rep Tid Op ρ} {t : Tid} {p p' p'' : Prog μ A E Rep α}
  {l l' : List (Event A E Rep Tid Op ρ × σ)}

theorem append (h : M.Performs t p l p') (h' : M.Performs t p' l' p'') :
    M.Performs t p (l ++ l') p'' := by
  induction h with
  | nil => exact h'
  | read _ ih => exact .read (ih h')
  | lock _ ih => exact .lock (ih h')
  | ask _ ih => exact .ask (ih h')

/-- **What is performed follows the text.** -/
theorem follows {G : List (Event A E Rep Tid Op ρ × σ) → Event A E Rep Tid Op ρ → σ → Prop}
    {Q : List (Event A E Rep Tid Op ρ × σ) → α → Prop} (h : M.Performs t p l' p')
    (hf : M.Follows t G Q p l) (ha : ∀ e ∈ l', ∃ s, M.apply e.1 e.2 = some s) :
    M.Follows t G Q p' (l ++ l') := by
  induction h generalizing l with
  | nil => rwa [List.append_nil]
  | @read k s l' p _ ih | @lock a k s l' p _ ih =>
    obtain ⟨s', hs'⟩ := ha _ List.mem_cons_self
    rw [List.append_cons]
    exact ih (hf s s' hs').2 fun e he => ha e (List.mem_cons_of_mem _ he)
  | @ask e k r s l' p _ ih =>
    obtain ⟨s', hs'⟩ := ha _ List.mem_cons_self
    rw [List.append_cons]
    exact ih (hf r s s' hs').2 fun e he => ha e (List.mem_cons_of_mem _ he)

end Machine.Performs

section Runs

variable [DecidableEq Tid] {M : Machine σ μ A E Rep Tid Op ρ} {c c' : Config σ μ A E Rep Tid Op ρ}
  {tr : List (Event A E Rep Tid Op ρ)} {t : Tid}

/-- A run begins with its first event. -/
theorem Run.head {ev : Event A E Rep Tid Op ρ} (h : Run M c (ev :: tr) c') :
    ∃ c₁, Step M c ev c₁ ∧ Run M c₁ tr c' := by
  have h' : Run M c ([] ++ ev :: tr) c' := h
  obtain ⟨c₁, c₂, h₁, hs, h₂⟩ := h'.split
  generalize hnil : ([] : List (Event A E Rep Tid Op ρ)) = w at h₁
  cases h₁ with
  | nil => exact ⟨c₂, hs, h₂⟩
  | snoc => simp at hnil

/-- Every entry of a journal has happened. -/
theorem Run.journal_applies (h : Run M c tr c') :
    ∀ e ∈ M.journal t [] c.shared tr, ∃ s, M.apply e.1 e.2 = some s := by
  induction h with
  | nil => exact List.forall_mem_nil _
  | @snoc tr c₁ ev c₂ h hs ih =>
    rw [h.journal_snoc hs]
    by_cases hres : ev.Resets t
    · rw [note_of_resets hres]
      exact List.forall_mem_nil _
    by_cases htid : ev.tid = some t
    · rw [note_of_tid htid hres]
      refine List.forall_mem_append.mpr ⟨ih, fun e he => ?_⟩
      rw [List.mem_singleton.mp he]
      exact ⟨_, hs.apply⟩
    · rw [note_of_ne htid hres]
      exact ih

/-- What a thread has noted stays noted while its call lasts. -/
theorem Machine.journal_append (l l' : List (Event A E Rep Tid Op ρ × σ)) (s : σ)
    (hno : ∀ ev ∈ tr, ¬ ev.Resets t) : M.journal t (l ++ l') s tr = l ++ M.journal t l' s tr := by
  induction tr generalizing l' s with
  | nil => rfl
  | cons ev tr ih =>
    have hres : ¬ ev.Resets t := hno ev List.mem_cons_self
    simp only [journal, history]
    split
    · next s' ha =>
      refine Eq.trans ?_
        (ih (note t l' (ev, s)) s' fun ev hev => hno ev (List.mem_cons_of_mem _ hev))
      congr 1
      by_cases htid : ev.tid = some t
      · rw [note_of_tid htid hres, note_of_tid htid hres, List.append_assoc]
      · rw [note_of_ne htid hres, note_of_ne htid hres]
    · rfl

/-- A thread's own step is the first entry of the stretch that begins with it. -/
theorem Step.journal_cons {ev : Event A E Rep Tid Op ρ} (hs : Step M c ev c')
    (htid : ev.tid = some t) (hres : ¬ ev.Resets t) (hno : ∀ ev ∈ tr, ¬ ev.Resets t) :
    M.journal t [] c.shared (ev :: tr) = (ev, c.shared) :: M.journal t [] c'.shared tr := by
  refine Eq.trans ?_ (Machine.journal_append [(ev, c.shared)] [] c'.shared hno)
  simp only [Machine.journal, Machine.history, hs.apply]
  rw [note_of_tid htid hres]
  rfl

/-- In a stretch of one call the journal has the thread's own events, in order. -/
theorem Run.journal_events (h : Run M c tr c') (hno : ∀ ev ∈ tr, ¬ ev.Resets t) :
    (M.journal t [] c.shared tr).map Prod.fst = tr.filter (·.tid = some t) := by
  induction h with
  | nil => rfl
  | @snoc tr c₁ ev c₂ h hs ih =>
    rw [h.journal_snoc hs, List.filter_append,
      ← ih fun ev hev => hno ev (List.mem_append_left _ hev)]
    by_cases htid : ev.tid = some t
    · rw [note_of_tid htid (hno ev (by simp))]
      simp [htid]
    · rw [note_of_ne htid (hno ev (by simp))]
      simp [htid]

/-- **One step** of a call that is inside a stretch of code. -/
theorem Step.performs {ev : Event A E Rep Tid Op ρ} {op : Op} {p₀ p : Prog μ A E Rep α}
    {f : α → Prog μ A E Rep ρ} {l : List (Event A E Rep Tid Op ρ × σ)} (hs : Step M c ev c')
    (hres : ¬ ev.Resets t) (hp : c.tasks t = some (op, p >>= f)) (hret : ∀ a, p ≠ .ret a)
    (h : M.Performs t p₀ l p) :
    ∃ p', M.Performs t p₀ (note t l (ev, c.shared)) p' ∧ c'.tasks t = some (op, p' >>= f) := by
  have hother : ∀ {u task}, c'.tasks = Function.update c.tasks u task → ev.tid = some u → u ≠ t →
      ∃ p', M.Performs t p₀ (note t l (ev, c.shared)) p' ∧ c'.tasks t = some (op, p' >>= f) := by
    intro u task htasks htid hu
    rw [note_of_ne (fun he => hu (Option.some.inj (htid.symm.trans he))) hres, htasks,
      Function.update_of_ne (Ne.symm hu)]
    exact ⟨p, h, hp⟩
  cases hs with
  | crashed => exact absurd trivial hres
  | started | finished => exact hother rfl rfl hres
  | @read u op' k s ht ha =>
    by_cases hu : u = t
    · subst hu
      rw [note_of_tid rfl hres]
      cases p with
      | ret a => exact absurd rfl (hret a)
      | read k' =>
        cases hp.symm.trans ht
        exact ⟨_, h.append (.read .nil), Function.update_self _ _ _⟩
      | _ => cases hp.symm.trans ht
    · exact hother rfl rfl hu
  | @locked u op' a k s ht ha =>
    by_cases hu : u = t
    · subst hu
      rw [note_of_tid rfl hres]
      cases p with
      | ret a => exact absurd rfl (hret a)
      | lock a' k' =>
        cases hp.symm.trans ht
        exact ⟨_, h.append (.lock .nil), Function.update_self _ _ _⟩
      | _ => cases hp.symm.trans ht
    · exact hother rfl rfl hu
  | @asked u op' e k r s ht ha =>
    by_cases hu : u = t
    · subst hu
      rw [note_of_tid rfl hres]
      cases p with
      | ret a => exact absurd rfl (hret a)
      | ask e' k' =>
        cases hp.symm.trans ht
        exact ⟨_, h.append (.ask .nil), Function.update_self _ _ _⟩
      | _ => cases hp.symm.trans ht
    · exact hother rfl rfl hu

/-! ## A whole stretch -/

/-- **From `c` to `c'`, `t` performs `p` to its end**, inside one call, with the result `a`. -/
structure Executes (M : Machine σ μ A E Rep Tid Op ρ) (t : Tid) (p : Prog μ A E Rep α)
    (c : Config σ μ A E Rep Tid Op ρ) (tr : List (Event A E Rep Tid Op ρ)) (a : α)
    (c' : Config σ μ A E Rep Tid Op ρ) : Prop where
  run : Run M c tr c'
  whole : ∀ ev ∈ tr, ¬ ev.Resets t
  performs : M.Performs t p (M.journal t [] c.shared tr) (.ret a)

/-- What the text of a program says of its end holds of every stretch that performs it. -/
theorem Executes.text {p : Prog μ A E Rep α} {a : α}
    {G : List (Event A E Rep Tid Op ρ × σ) → Event A E Rep Tid Op ρ → σ → Prop}
    {Q : List (Event A E Rep Tid Op ρ × σ) → α → Prop} (h : Executes M t p c tr a c')
    (hf : M.Follows t G Q p []) : Q (M.journal t [] c.shared tr) a :=
  h.performs.follows hf h.run.journal_applies

/-- **A call goes through one helper after another**: at the end of a run it is still in the first,
or has been through it. -/
theorem Run.executes {p : Prog μ A E Rep α} {f : α → Prog μ A E Rep ρ} {op : Op} (h : Run M c tr c')
    (hno : ∀ ev ∈ tr, ¬ ev.Resets t) (hp : c.tasks t = some (op, p >>= f)) :
    (∃ p', M.Performs t p (M.journal t [] c.shared tr) p' ∧ c'.tasks t = some (op, p' >>= f)) ∨
      ∃ tr₁ tr₂ a c₁, tr = tr₁ ++ tr₂ ∧ Executes M t p c tr₁ a c₁ ∧ Run M c₁ tr₂ c' ∧
        c₁.tasks t = some (op, f a) := by
  induction h with
  | nil => exact .inl ⟨p, .nil, hp⟩
  | @snoc tr c₁ ev c₂ h hs ih =>
    have hno' : ∀ ev ∈ tr, ¬ ev.Resets t := fun ev hev => hno ev (List.mem_append_left _ hev)
    obtain ⟨p', hperf, hp'⟩ | ⟨tr₁, tr₂, a, c₃, rfl, hex, h₂, hc₃⟩ := ih hno'
    · cases p' with
      | ret a => exact .inr ⟨tr, [ev], a, c₁, rfl, ⟨h, hno', hperf⟩, Run.nil.snoc hs, hp'⟩
      | _ =>
        rw [h.journal_snoc hs]
        exact .inl (hs.performs (hno ev (by simp)) hp' nofun hperf)
    · exact .inr ⟨tr₁, tr₂ ++ [ev], a, c₃, by simp, hex, h₂.snoc hs, hc₃⟩

/-- **A call at its end has been through its first helper.** -/
theorem Run.executes_of_ret {p : Prog μ A E Rep α} {f : α → Prog μ A E Rep ρ} {op op' : Op} {r : ρ}
    (h : Run M c tr c') (hno : ∀ ev ∈ tr, ¬ ev.Resets t) (hp : c.tasks t = some (op, p >>= f))
    (hr : c'.tasks t = some (op', .ret r)) : ∃ tr₁ tr₂ a c₁, tr = tr₁ ++ tr₂ ∧
      Executes M t p c tr₁ a c₁ ∧ Run M c₁ tr₂ c' ∧ c₁.tasks t = some (op, f a) := by
  obtain ⟨p', hperf, hp'⟩ | hex := h.executes hno hp
  · cases p' with
    | ret a => exact ⟨tr, [], a, c', by simp, ⟨h, hno, hperf⟩, .nil, hp'⟩
    | _ => cases hp'.symm.trans hr
  · exact hex

/-- A stretch that performs something may be taken to begin with its first own event. -/
theorem Executes.from_first {p : Prog μ A E Rep α} {a : α} (h : Executes M t p c tr a c')
    (hne : M.journal t [] c.shared tr ≠ []) : ∃ w tr₁ ev c₁, tr = w ++ ev :: tr₁ ∧ Run M c w c₁ ∧
      ev.tid = some t ∧ Executes M t p c₁ (ev :: tr₁) a c' := by
  induction tr generalizing c with
  | nil => exact absurd rfl hne
  | cons ev tr ih =>
    by_cases htid : ev.tid = some t
    · exact ⟨[], tr, ev, c, rfl, .nil, htid, h⟩
    · obtain ⟨c₁, hs, h₁⟩ := h.run.head
      have hj : M.journal t [] c.shared (ev :: tr) = M.journal t [] c₁.shared tr := by
        simp only [Machine.journal, Machine.history, hs.apply]
        rw [note_of_ne htid (h.whole ev List.mem_cons_self)]
      have hex : Executes M t p c₁ tr a c' :=
        ⟨h₁, fun ev hev => h.whole ev (List.mem_cons_of_mem _ hev), hj ▸ h.performs⟩
      obtain ⟨w, tr₁, ev₁, c₂, rfl, h₂, htid₁, hex₁⟩ := ih hex (hj ▸ hne)
      exact ⟨ev :: w, tr₁, ev₁, c₂, rfl, Run.append (Run.nil.snoc hs) h₂, htid₁, hex₁⟩

/-! ## Checking a trace -/

variable [DecidableEq A] [DecidableEq E]

/-- What is left of a program after one event of its thread, which found the memory `m`. -/
def Prog.follow (t : Tid) (m : μ) : Prog μ A E Rep α → Event A E Rep Tid Op ρ →
    Option (Prog μ A E Rep α)
  | .read k, .read u => if u = t then some (k m) else none
  | .lock a k, .locked u a' => if u = t ∧ a' = a then some (k m) else none
  | .ask e k, .asked u e' r => if h : e' = e then if u = t then some (k (h ▸ r)) else none else none
  | _, _ => none

/-- What is left of a program after the events of its thread in a trace. -/
def Machine.track (M : Machine σ μ A E Rep Tid Op ρ) (t : Tid) : Prog μ A E Rep α → σ →
    List (Event A E Rep Tid Op ρ) → Option (Prog μ A E Rep α)
  | p, _, [] => some p
  | p, s, ev :: rest =>
    match M.apply ev s with
    | none => none
    | some s' =>
      if ev.tid = some t then (p.follow t (M.mem s) ev).bind fun p' => M.track t p' s' rest
      else M.track t p s' rest

/-- The result of a program that has ended. -/
def Prog.result : Prog μ A E Rep α → Option α
  | .ret a => some a
  | _ => none

theorem Prog.follow_performs {p p' : Prog μ A E Rep α} {ev : Event A E Rep Tid Op ρ} {s : σ}
    (h : p.follow t (M.mem s) ev = some p') : M.Performs t p [(ev, s)] p' := by
  cases p with
  | ret a => cases ev <;> cases h
  | read k =>
    cases ev with
    | read u =>
      simp only [follow] at h
      split at h
      · next hu => subst hu; cases h; exact .read .nil
      · cases h
    | _ => cases h
  | lock a k =>
    cases ev with
    | locked u a' =>
      simp only [follow] at h
      split at h
      · next hu => obtain ⟨rfl, rfl⟩ := hu; cases h; exact .lock .nil
      · cases h
    | _ => cases h
  | ask e k =>
    cases ev with
    | asked u e' r =>
      simp only [follow] at h
      split at h
      · next he =>
        subst he
        split at h
        · next hu => subst hu; cases h; exact .ask .nil
        · cases h
      · cases h
    | _ => cases h

/-- **A trace that tracks a program performs it.** -/
theorem Machine.performs_of_track {p p' : Prog μ A E Rep α} {s : σ}
    {l : List (Event A E Rep Tid Op ρ × σ)} {p₀ : Prog μ A E Rep α}
    (hno : ∀ ev ∈ tr, ¬ ev.Resets t) (hp : M.Performs t p₀ l p) (h : M.track t p s tr = some p') :
    M.Performs t p₀ (M.journal t l s tr) p' := by
  induction tr generalizing p s l with
  | nil => cases h; exact hp
  | cons ev tr ih =>
    have hrest : ∀ ev ∈ tr, ¬ ev.Resets t := fun ev hev => hno ev (List.mem_cons_of_mem _ hev)
    have hres : ¬ ev.Resets t := hno ev List.mem_cons_self
    simp only [track] at h
    cases ha : M.apply ev s with
    | none => rw [ha] at h; cases h
    | some s' =>
      simp only [ha] at h
      simp only [journal, history, ha]
      split at h
      · next htid =>
        obtain ⟨p₁, hp₁, h⟩ := Option.bind_eq_some_iff.mp h
        rw [note_of_tid htid hres]
        exact ih hrest (hp.append (Prog.follow_performs hp₁)) h
      · next htid =>
        rw [note_of_ne htid hres]
        exact ih hrest hp h

end Runs

end Interleave
