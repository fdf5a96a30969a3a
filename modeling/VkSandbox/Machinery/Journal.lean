import VkSandbox.Machinery.Prog
import Mathlib.Data.List.Induction

/-!
# Machinery/Journal — what one thread has done in its call, and in which states

A run interleaves the threads; the **journal** of a thread at some point of a run is what the call
it is in has done so far, each event with the state it found:

    trace      started t op   read u   read t   crash-free …   locked t a   asked u e r
    journal                            (read t, s₂)            (locked t a, s₅)

A program says which event may come after which journal.  `Machine.Follows t G Q p l` is the claim
that `p`, run by `t` with the journal `l` behind it, only ever adds an entry that `G` allows after
the journal so far, and returns a result that `Q` allows at its end; it is a recursion over the
program, so it is proved by following its text.  `Run.follows` then says so of every run.
-/

namespace Interleave

variable {σ μ A E : Type} {Rep : E → Type} {Tid Op ρ : Type}

/-! ## Replaying a trace -/

namespace Machine

variable (M : Machine σ μ A E Rep Tid Op ρ)

/-- The shared state a trace leads to. -/
def replay : σ → List (Event A E Rep Tid Op ρ) → Option σ
  | s, [] => some s
  | s, ev :: rest => (M.apply ev s).bind fun s' => replay s' rest

theorem replay_append (s : σ) (tr tr' : List (Event A E Rep Tid Op ρ)) :
    M.replay s (tr ++ tr') = (M.replay s tr).bind fun s' => M.replay s' tr' := by
  induction tr generalizing s with
  | nil => rfl
  | cons ev tr ih =>
    simp only [List.cons_append, replay]
    cases M.apply ev s with
    | none => rfl
    | some s' => exact ih s'

theorem replay_snoc {s s₁ : σ} {tr : List (Event A E Rep Tid Op ρ)} (ev : Event A E Rep Tid Op ρ)
    (h : M.replay s tr = some s₁) : M.replay s (tr ++ [ev]) = M.apply ev s₁ := by
  rw [replay_append, h]
  simp [replay]

end Machine

namespace Machine

variable {β : Type}

/-- A history kept along a trace: each event is noted with the state it found. -/
def history (M : Machine σ μ A E Rep Tid Op ρ) (f : β → Event A E Rep Tid Op ρ × σ → β) :
    β → σ → List (Event A E Rep Tid Op ρ) → β
  | b, _, [] => b
  | b, s, ev :: rest =>
    match M.apply ev s with
    | some s' => history M f (f b (ev, s)) s' rest
    | none => b

variable {M : Machine σ μ A E Rep Tid Op ρ}

/-- A condition that holds along a trace holds along its end. -/
theorem Along.right {C : Event A E Rep Tid Op ρ → σ → Prop} {s s' : σ}
    {tr tr' : List (Event A E Rep Tid Op ρ)} (h : M.Along C s (tr ++ tr'))
    (hr : M.replay s tr = some s') : M.Along C s' tr' := by
  induction tr generalizing s with
  | nil => cases hr; exact h
  | cons ev tr ih =>
    obtain ⟨s₁, ha, hr⟩ := Option.bind_eq_some_iff.mp hr
    exact ih (Along.tail h ha) hr

theorem history_append {f : β → Event A E Rep Tid Op ρ × σ → β} {s s₁ : σ}
    {tr : List (Event A E Rep Tid Op ρ)} (h : M.replay s tr = some s₁) (b : β)
    (tr' : List (Event A E Rep Tid Op ρ)) :
    M.history f b s (tr ++ tr') = M.history f (M.history f b s tr) s₁ tr' := by
  induction tr generalizing s b with
  | nil =>
    cases h
    rfl
  | cons ev' tr ih =>
    simp only [replay] at h
    cases hs : M.apply ev' s with
    | none => rw [hs] at h; cases h
    | some s' =>
      rw [hs] at h
      simp only [List.cons_append, history, hs]
      exact ih h _

theorem history_snoc {f : β → Event A E Rep Tid Op ρ × σ → β} {s s₁ s₂ : σ}
    {tr : List (Event A E Rep Tid Op ρ)} {ev : Event A E Rep Tid Op ρ}
    (h : M.replay s tr = some s₁) (ha : M.apply ev s₁ = some s₂) (b : β) :
    M.history f b s (tr ++ [ev]) = f (M.history f b s tr) (ev, s₁) := by
  rw [history_append h]
  simp [history, ha]

end Machine

/-- An event that begins or ends a call of `t`, or ends every call. -/
def Event.Resets (t : Tid) : Event A E Rep Tid Op ρ → Prop
  | .started u _ | .finished u _ _ => u = t
  | .crashed => True
  | _ => False

instance [DecidableEq Tid] (t : Tid) (ev : Event A E Rep Tid Op ρ) : Decidable (ev.Resets t) :=
  match ev with
  | .started u _ | .finished u _ _ => inferInstanceAs (Decidable (u = t))
  | .crashed => .isTrue trivial
  | .read _ | .locked _ _ | .asked _ _ _ => .isFalse id

/-- `l'` is `l` with more entries, all of plain events. -/
def Adds {ε : Type} (P : ε → Prop) (l l' : List (ε × σ)) : Prop :=
  ∃ added, l' = l ++ added ∧ ∀ e ∈ added, P e.1

namespace Adds

variable {ε : Type} {P : ε → Prop} {l l' l'' : List (ε × σ)}

theorem refl (l : List (ε × σ)) : Adds P l l := ⟨[], by simp, fun e he => by cases he⟩

theorem cons {e : ε × σ} (h : Adds P (l ++ [e]) l') (he : P e.1) : Adds P l l' := by
  obtain ⟨added, rfl, hall⟩ := h
  refine ⟨e :: added, by simp, fun e' he' => ?_⟩
  rcases List.mem_cons.mp he' with rfl | he'
  · exact he
  · exact hall e' he'

theorem mono {P' : ε → Prop} (h : Adds P l l') (hP : ∀ {e}, P e → P' e) : Adds P' l l' := by
  obtain ⟨added, hl, hall⟩ := h
  exact ⟨added, hl, fun e he => hP (hall e he)⟩

end Adds

/-! ## What may follow what -/

/-- **`p` follows its text**: from the journal `l` on, `t` only adds entries that `G` allows, and
ends in `Q`. -/
def Machine.Follows (M : Machine σ μ A E Rep Tid Op ρ) (t : Tid)
    (G : List (Event A E Rep Tid Op ρ × σ) → Event A E Rep Tid Op ρ → σ → Prop) {α : Type}
    (Q : List (Event A E Rep Tid Op ρ × σ) → α → Prop) :
    Prog μ A E Rep α → List (Event A E Rep Tid Op ρ × σ) → Prop
  | .ret a, l => Q l a
  | .read k, l => ∀ s s', M.apply (.read t) s = some s' → G l (.read t) s ∧
      Follows M t G Q (k (M.mem s)) (l ++ [(.read t, s)])
  | .lock a k, l => ∀ s s', M.apply (.locked t a) s = some s' → G l (.locked t a) s ∧
      Follows M t G Q (k (M.mem s)) (l ++ [(.locked t a, s)])
  | .ask e k, l => ∀ r s s', M.apply (.asked t e r) s = some s' → G l (.asked t e r) s ∧
      Follows M t G Q (k r) (l ++ [(.asked t e r, s)])

namespace Machine.Follows

variable {M : Machine σ μ A E Rep Tid Op ρ} {t : Tid}
  {G : List (Event A E Rep Tid Op ρ × σ) → Event A E Rep Tid Op ρ → σ → Prop} {α β : Type}
  {l : List (Event A E Rep Tid Op ρ × σ)}

/-- A text that allows more. -/
theorem imp {G' : List (Event A E Rep Tid Op ρ × σ) → Event A E Rep Tid Op ρ → σ → Prop}
    {p : Prog μ A E Rep α} {Q Q' : List (Event A E Rep Tid Op ρ × σ) → α → Prop}
    (hG : ∀ l ev s, G l ev s → G' l ev s) (h : M.Follows t G Q p l)
    (hq : ∀ l a, Q l a → Q' l a) : M.Follows t G' Q' p l := by
  induction p generalizing l with
  | ret a => exact hq l a h
  | read k ih => exact fun s s' ha => ⟨hG _ _ _ (h s s' ha).1, ih _ (h s s' ha).2⟩
  | lock a k ih => exact fun s s' ha => ⟨hG _ _ _ (h s s' ha).1, ih _ (h s s' ha).2⟩
  | ask e k ih => exact fun r s s' ha => ⟨hG _ _ _ (h r s s' ha).1, ih r (h r s s' ha).2⟩

theorem mono {p : Prog μ A E Rep α} {Q Q' : List (Event A E Rep Tid Op ρ × σ) → α → Prop}
    (h : M.Follows t G Q p l) (hq : ∀ l a, Q l a → Q' l a) : M.Follows t G Q' p l :=
  h.imp (fun _ _ _ h => h) hq

/-- Two texts of one program. -/
theorem and {G' : List (Event A E Rep Tid Op ρ × σ) → Event A E Rep Tid Op ρ → σ → Prop}
    {p : Prog μ A E Rep α} {Q Q' : List (Event A E Rep Tid Op ρ × σ) → α → Prop}
    (h : M.Follows t G Q p l) (h' : M.Follows t G' Q' p l) :
    M.Follows t (fun l ev s => G l ev s ∧ G' l ev s) (fun l a => Q l a ∧ Q' l a) p l := by
  induction p generalizing l with
  | ret a => exact ⟨h, h'⟩
  | read k ih =>
    exact fun s s' ha => ⟨⟨(h s s' ha).1, (h' s s' ha).1⟩, ih _ (h s s' ha).2 (h' s s' ha).2⟩
  | lock a k ih =>
    exact fun s s' ha => ⟨⟨(h s s' ha).1, (h' s s' ha).1⟩, ih _ (h s s' ha).2 (h' s s' ha).2⟩
  | ask e k ih =>
    exact fun r s s' ha =>
      ⟨⟨(h r s s' ha).1, (h' r s s' ha).1⟩, ih r (h r s s' ha).2 (h' r s s' ha).2⟩

theorem bind {p : Prog μ A E Rep α} {f : α → Prog μ A E Rep β}
    {Q : List (Event A E Rep Tid Op ρ × σ) → β → Prop}
    (h : M.Follows t G (fun l a => M.Follows t G Q (f a) l) p l) : M.Follows t G Q (p >>= f) l := by
  induction p generalizing l with
  | ret a => exact h
  | read k ih => exact fun s s' ha => ⟨(h s s' ha).1, ih _ (h s s' ha).2⟩
  | lock a k ih => exact fun s s' ha => ⟨(h s s' ha).1, ih _ (h s s' ha).2⟩
  | ask e k ih => exact fun r s s' ha => ⟨(h r s s' ha).1, ih r (h r s s' ha).2⟩

/-- The spec of a helper, used where it is called. -/
theorem call {p : Prog μ A E Rep α} {f : α → Prog μ A E Rep β}
    {P : List (Event A E Rep Tid Op ρ × σ) → α → Prop}
    {Q : List (Event A E Rep Tid Op ρ × σ) → β → Prop} (h : M.Follows t G P p l)
    (hf : ∀ l a, P l a → M.Follows t G Q (f a) l) : M.Follows t G Q (p >>= f) l :=
  bind (h.mono hf)

theorem map {p : Prog μ A E Rep α} {f : α → β}
    {Q : List (Event A E Rep Tid Op ρ × σ) → β → Prop}
    (h : M.Follows t G (fun l a => Q l (f a)) p l) : M.Follows t G Q (f <$> p) l := by
  induction p generalizing l with
  | ret a => exact h
  | read k ih => exact fun s s' ha => ⟨(h s s' ha).1, ih _ (h s s' ha).2⟩
  | lock a k ih => exact fun s s' ha => ⟨(h s s' ha).1, ih _ (h s s' ha).2⟩
  | ask e k ih => exact fun r s s' ha => ⟨(h r s s' ha).1, ih r (h r s s' ha).2⟩

/-- **Code that performs only plain events** adds only such, and keeps to any text that allows
them. -/
theorem plain {P : Event A E Rep Tid Op ρ → Prop} {p : Prog μ A E Rep α}
    (h : M.Follows t (fun _ ev _ => P ev) (fun _ _ => True) p l) (hG : ∀ l ev s, P ev → G l ev s) :
    M.Follows t G (fun l' _ => Adds P l l') p l := by
  induction p generalizing l with
  | ret a => exact .refl l
  | read k ih =>
    exact fun s s' ha => ⟨hG _ _ _ (h s s' ha).1,
      (ih _ (h s s' ha).2).mono fun l' _ hl' => hl'.cons (h s s' ha).1⟩
  | lock a k ih =>
    exact fun s s' ha => ⟨hG _ _ _ (h s s' ha).1,
      (ih _ (h s s' ha).2).mono fun l' _ hl' => hl'.cons (h s s' ha).1⟩
  | ask e k ih =>
    exact fun r s s' ha => ⟨hG _ _ _ (h r s s' ha).1,
      (ih r (h r s s' ha).2).mono fun l' _ hl' => hl'.cons (h r s s' ha).1⟩

/-- **Where every text is allowed**, and stays so, any code follows it. -/
theorem free {P : List (Event A E Rep Tid Op ρ × σ) → Prop} {p : Prog μ A E Rep α} (h : P l)
    (hG : ∀ l ev s, P l → G l ev s) (hP : ∀ l e, P l → P (l ++ [e])) :
    M.Follows t G (fun l' _ => P l') p l := by
  induction p generalizing l with
  | ret a => exact h
  | read k ih => exact fun s s' ha => ⟨hG _ _ _ h, ih _ (hP _ _ h)⟩
  | lock a k ih => exact fun s s' ha => ⟨hG _ _ _ h, ih _ (hP _ _ h)⟩
  | ask e k ih => exact fun r s s' ha => ⟨hG _ _ _ h, ih r (hP _ _ h)⟩

/-- **Code that enters certain sections only** keeps to a text that asks no more. -/
theorem of_enters {P : A → Prop} {p : Prog μ A E Rep α} (h : p.Enters P)
    (hG : ∀ l ev s, (∀ u a, ev = .locked u a → P a) → G l ev s) :
    M.Follows t G (fun _ _ => True) p l := by
  induction p generalizing l with
  | ret a => trivial
  | read k ih => exact fun s s' _ => ⟨hG _ _ _ nofun, ih _ (h _)⟩
  | lock a k ih =>
    refine fun s s' _ => ⟨hG _ _ _ fun u a' he => ?_, ih _ (h.2 _)⟩
    cases he
    exact h.1
  | ask e k ih => exact fun r s s' _ => ⟨hG _ _ _ nofun, ih r (h r)⟩

/-- **Code that makes certain requests only** keeps what its text keeps. -/
theorem keeps_of_asks {P : E → Prop} {I : List (Event A E Rep Tid Op ρ × σ) → Prop}
    {p : Prog μ A E Rep α} (h : p.Asks P) (hl : I l)
    (hG : ∀ l ev s, I l → (∀ u e r, ev = .asked u e r → P e) → G l ev s ∧ I (l ++ [(ev, s)])) :
    M.Follows t G (fun l' _ => I l') p l := by
  have hplain : ∀ ev : Event A E Rep Tid Op ρ, (∀ u e r, ev ≠ .asked u e r) →
      ∀ u e r, ev = .asked u e r → P e := fun ev hev u e r he => absurd he (hev u e r)
  induction p generalizing l with
  | ret a => exact hl
  | read k ih =>
    intro s s' _
    obtain ⟨hg, hl'⟩ := hG l (.read t) s hl (hplain _ fun u e r he => by cases he)
    exact ⟨hg, ih _ (h _) hl'⟩
  | lock a k ih =>
    intro s s' _
    obtain ⟨hg, hl'⟩ := hG l (.locked t a) s hl (hplain _ fun u e r he => by cases he)
    exact ⟨hg, ih _ (h _) hl'⟩
  | ask e k ih =>
    intro r s s' _
    obtain ⟨hg, hl'⟩ := hG l (.asked t e r) s hl fun u e' r' he => by cases he; exact h.1
    exact ⟨hg, ih r (h.2 r) hl'⟩

/-- Code that makes certain requests only keeps to a text that asks no more. -/
theorem of_asks {P : E → Prop} {p : Prog μ A E Rep α} (h : p.Asks P)
    (hG : ∀ l ev s, (∀ u e r, ev = .asked u e r → P e) → G l ev s) :
    M.Follows t G (fun _ _ => True) p l :=
  keeps_of_asks h trivial fun l ev s _ hev => ⟨hG l ev s hev, trivial⟩

/-- `if err := p; err != nil { return err }`. -/
theorem orReturn {ε : Type} {p : Prog μ A E Rep (Except ε α)}
    {q : α → Prog μ A E Rep (Except ε β)}
    {P : List (Event A E Rep Tid Op ρ × σ) → Except ε α → Prop}
    {Q : List (Event A E Rep Tid Op ρ × σ) → Except ε β → Prop} (h : M.Follows t G P p l)
    (herr : ∀ l err, P l (.error err) → Q l (.error err))
    (hok : ∀ l a, P l (.ok a) → M.Follows t G Q (q a) l) : M.Follows t G Q (p.orReturn q) l := by
  refine call h fun l a hP => ?_
  cases a with
  | error err => exact herr l err hP
  | ok a => exact hok l a hP

end Machine.Follows

/-! ## Journals -/

section Journal

variable [DecidableEq Tid]

/-- The journal of `t` after one more event, and the state that event found. -/
def note (t : Tid) (l : List (Event A E Rep Tid Op ρ × σ)) :
    Event A E Rep Tid Op ρ × σ → List (Event A E Rep Tid Op ρ × σ)
  | (.crashed, _) => []
  | (.started u _, _) | (.finished u _ _, _) => if u = t then [] else l
  | (.read u, s) => if u = t then l ++ [(.read u, s)] else l
  | (.locked u a, s) => if u = t then l ++ [(.locked u a, s)] else l
  | (.asked u e r, s) => if u = t then l ++ [(.asked u e r, s)] else l

theorem note_of_resets {t : Tid} {ev : Event A E Rep Tid Op ρ} (h : ev.Resets t)
    (l : List (Event A E Rep Tid Op ρ × σ)) (s : σ) : note t l (ev, s) = [] := by
  cases ev with
  | started u op => exact if_pos h
  | finished u op r => exact if_pos h
  | crashed => rfl
  | _ => cases h

theorem note_of_tid {t : Tid} {ev : Event A E Rep Tid Op ρ} (h : ev.tid = some t)
    (hr : ¬ ev.Resets t) (l : List (Event A E Rep Tid Op ρ × σ)) (s : σ) :
    note t l (ev, s) = l ++ [(ev, s)] := by
  cases ev with
  | started u op => exact absurd (Option.some.inj h) hr
  | finished u op r => exact absurd (Option.some.inj h) hr
  | crashed => cases h
  | _ => exact if_pos (Option.some.inj h)

theorem note_of_ne {t : Tid} {ev : Event A E Rep Tid Op ρ} (h : ev.tid ≠ some t)
    (hr : ¬ ev.Resets t) (l : List (Event A E Rep Tid Op ρ × σ)) (s : σ) :
    note t l (ev, s) = l := by
  cases ev with
  | crashed => exact absurd trivial hr
  | _ => exact if_neg fun he => h (congrArg some he)

namespace Machine

variable (M : Machine σ μ A E Rep Tid Op ρ)

/-- **The journal of `t`**, read off a trace. -/
def journal (t : Tid) : List (Event A E Rep Tid Op ρ × σ) → σ → List (Event A E Rep Tid Op ρ) →
    List (Event A E Rep Tid Op ρ × σ) := M.history (note t)

variable {M}

/-- The journal of `t` is `t`'s own, and begins after the call did. -/
theorem journal_tid {t : Tid} {s : σ} {tr : List (Event A E Rep Tid Op ρ)}
    {l : List (Event A E Rep Tid Op ρ × σ)}
    (hl : ∀ e ∈ l, e.1.tid = some t ∧ ¬ e.1.Resets t) :
    ∀ e ∈ M.journal t l s tr, e.1.tid = some t ∧ ¬ e.1.Resets t := by
  induction tr generalizing s l with
  | nil => exact hl
  | cons ev tr ih =>
    simp only [journal, history]
    split
    · refine ih fun e he => ?_
      by_cases hr : ev.Resets t
      · rw [note_of_resets hr] at he
        cases he
      by_cases ht : ev.tid = some t
      · rw [note_of_tid ht hr] at he
        rcases List.mem_append.mp he with he | he
        · exact hl e he
        · rw [List.mem_singleton.mp he]
          exact ⟨ht, hr⟩
      · rw [note_of_ne ht hr] at he
        exact hl e he
    · exact hl

/-- **Where an entry of the journal stands in the trace**: the state it names is the one reached
there, and the call has gone on since; after the last entry `t` has done nothing. -/
theorem journal_split {t : Tid} {s₀ s s₁ : σ} {tr : List (Event A E Rep Tid Op ρ)}
    {l₁ l₂ : List (Event A E Rep Tid Op ρ × σ)} {ev : Event A E Rep Tid Op ρ}
    (hr : M.replay s₀ tr = some s) (h : M.journal t [] s₀ tr = l₁ ++ (ev, s₁) :: l₂) :
    ∃ tr₁ tr₂, tr = tr₁ ++ ev :: tr₂ ∧ M.replay s₀ tr₁ = some s₁ ∧ M.journal t [] s₀ tr₁ = l₁ ∧
      (∀ ev' ∈ tr₂, ¬ ev'.Resets t) ∧ (l₂ = [] → ∀ ev' ∈ tr₂, ev'.tid ≠ some t) := by
  induction tr using List.reverseRecOn generalizing s l₂ with
  | nil => simp [journal, history] at h
  | append_singleton tr ev' ih =>
    obtain ⟨s', hs', ha⟩ : ∃ s', M.replay s₀ tr = some s' ∧ M.apply ev' s' = some s := by
      rw [replay_append] at hr
      obtain ⟨s', hs', ha⟩ := Option.bind_eq_some_iff.mp hr
      exact ⟨s', hs', by simpa [replay] using ha⟩
    rw [journal, history_snoc hs' ha] at h
    change note t (M.journal t [] s₀ tr) _ = _ at h
    by_cases hres : ev'.Resets t
    · rw [note_of_resets hres] at h
      simp at h
    -- the entry is an old one, and `ev'` comes after it
    have hold : ∀ {l₂'}, M.journal t [] s₀ tr = l₁ ++ (ev, s₁) :: l₂' →
        (l₂ = [] → l₂' = [] ∧ ev'.tid ≠ some t) → ∃ tr₁ tr₂,
        tr ++ [ev'] = tr₁ ++ ev :: tr₂ ∧ M.replay s₀ tr₁ = some s₁ ∧
        M.journal t [] s₀ tr₁ = l₁ ∧ (∀ ev'' ∈ tr₂, ¬ ev''.Resets t) ∧
        (l₂ = [] → ∀ ev'' ∈ tr₂, ev''.tid ≠ some t) := by
      intro l₂' h' hlast
      obtain ⟨tr₁, tr₂, rfl, hrep, hj, hno, hquiet⟩ := ih hs' h'
      refine ⟨tr₁, tr₂ ++ [ev'], by simp, hrep, hj, fun ev'' hev => ?_, fun hl ev'' hev => ?_⟩
      · rcases List.mem_append.mp hev with hev | hev
        · exact hno ev'' hev
        · rw [List.mem_singleton.mp hev]
          exact hres
      · rcases List.mem_append.mp hev with hev | hev
        · exact hquiet (hlast hl).1 ev'' hev
        · rw [List.mem_singleton.mp hev]
          exact (hlast hl).2
    by_cases htid : ev'.tid = some t
    · rw [note_of_tid htid hres] at h
      rcases List.eq_nil_or_concat l₂ with rfl | ⟨l₂', e, rfl⟩
      · obtain ⟨hl, he⟩ := List.append_inj' h rfl
        cases he
        exact ⟨tr, [], rfl, hs', hl, nofun, nofun⟩
      · rw [List.concat_eq_append, ← List.cons_append, ← List.append_assoc] at h
        exact hold (List.append_inj' h rfl).1 fun hl => by simp at hl
    · rw [note_of_ne htid hres] at h
      exact hold h fun hl => ⟨hl, htid⟩

end Machine

/-! ## Runs -/

variable {M : Machine σ μ A E Rep Tid Op ρ} {c₀ c c' : Config σ μ A E Rep Tid Op ρ}
  {tr tr' : List (Event A E Rep Tid Op ρ)} {ev : Event A E Rep Tid Op ρ} {t : Tid}

theorem Step.apply (h : Step M c ev c') : M.apply ev c.shared = some c'.shared := by
  cases h <;> assumption

theorem Run.replay (h : Run M c₀ tr c) : M.replay c₀.shared tr = some c.shared := by
  induction h with
  | nil => rfl
  | snoc _ hs ih => rw [M.replay_snoc _ ih, hs.apply]

/-- A trace leads to one shared state. -/
theorem Run.shared_eq (h : Run M c₀ tr c) (h' : Run M c₀ tr c') : c.shared = c'.shared :=
  Option.some.inj (h.replay.symm.trans h'.replay)

/-- A history grows with the run. -/
theorem Run.history_snoc {β : Type} {f : β → Event A E Rep Tid Op ρ × σ → β} (h : Run M c₀ tr c)
    (hs : Step M c ev c') (b : β) :
    M.history f b c₀.shared (tr ++ [ev]) = f (M.history f b c₀.shared tr) (ev, c.shared) :=
  Machine.history_snoc h.replay hs.apply b

/-- So does the journal. -/
theorem Run.journal_snoc (h : Run M c₀ tr c) (hs : Step M c ev c')
    (l : List (Event A E Rep Tid Op ρ × σ)) :
    M.journal t l c₀.shared (tr ++ [ev]) = note t (M.journal t l c₀.shared tr) (ev, c.shared) :=
  h.history_snoc hs l

/-- A run can be cut before any of its events. -/
theorem Run.split (h : Run M c₀ (tr ++ ev :: tr') c) :
    ∃ c₁ c₂, Run M c₀ tr c₁ ∧ Step M c₁ ev c₂ ∧ Run M c₂ tr' c := by
  generalize hall : tr ++ ev :: tr' = all at h
  induction h generalizing tr' with
  | nil => simp at hall
  | @snoc tr₁ c₁ ev₁ c₂ h₁ hs ih =>
    rcases List.eq_nil_or_concat tr' with rfl | ⟨tr'', ev', rfl⟩
    · obtain ⟨rfl, he⟩ := List.append_inj' hall rfl
      cases he
      exact ⟨c₁, c₂, h₁, hs, .nil⟩
    · rw [List.concat_eq_append, ← List.cons_append, ← List.append_assoc] at hall
      obtain ⟨hl, he⟩ := List.append_inj' hall rfl
      cases he
      obtain ⟨c₃, c₄, h₃, hs₃, h₄⟩ := ih hl
      exact ⟨c₃, c₄, h₃, hs₃, by rw [List.concat_eq_append]; exact h₄.snoc hs⟩

/-- A run can be cut anywhere. -/
theorem Run.cut (h : Run M c₀ (tr ++ tr') c) : ∃ c₁, Run M c₀ tr c₁ ∧ Run M c₁ tr' c := by
  cases tr' with
  | nil => exact ⟨c, by rwa [List.append_nil] at h, .nil⟩
  | cons ev rest =>
    obtain ⟨c₁, c₂, h₁, hs, h₂⟩ := h.split
    exact ⟨c₁, h₁, Run.append (Run.nil.snoc hs) h₂⟩

/-- A thread that does nothing stays where it is. -/
theorem Run.tasks_quiet (h : Run M c tr c') (hquiet : ∀ ev ∈ tr, ev.tid ≠ some t)
    (hno : ∀ ev ∈ tr, ev ≠ .crashed) : c'.tasks t = c.tasks t := by
  induction h with
  | nil => rfl
  | @snoc tr₁ c₁ ev c₂ h₁ hs ih =>
    have hlast : ev ∈ tr₁ ++ [ev] := by simp
    rw [← ih (fun ev hev => hquiet ev (List.mem_append_left _ hev))
      fun ev hev => hno ev (List.mem_append_left _ hev)]
    have hne : ∀ {u}, ev.tid = some u → t ≠ u := fun hu ht => hquiet ev hlast (ht ▸ hu)
    cases hs with
    | crashed => exact absurd rfl (hno _ hlast)
    | _ => exact Function.update_of_ne (hne rfl) _ _

/-- A call goes on until it is reset. -/
theorem Run.tasks_op (h : Run M c tr c') (hno : ∀ ev ∈ tr, ¬ ev.Resets t) {op : Op}
    {p : Prog μ A E Rep ρ} (hp : c.tasks t = some (op, p)) : ∃ p', c'.tasks t = some (op, p') := by
  induction h with
  | nil => exact ⟨p, hp⟩
  | @snoc tr₁ c₁ ev c₂ h₁ hs ih =>
    obtain ⟨p', hp'⟩ := ih fun ev hev => hno ev (List.mem_append_left _ hev)
    have hlast : ¬ ev.Resets t := hno ev (by simp)
    have hother : ∀ {u task}, c₂.tasks = Function.update c₁.tasks u task → u ≠ t →
        ∃ p', c₂.tasks t = some (op, p') := fun htasks hu =>
      ⟨p', by rw [htasks, Function.update_of_ne (Ne.symm hu)]; exact hp'⟩
    cases hs with
    | crashed => exact absurd trivial hlast
    | started | finished => exact hother rfl hlast
    | @read u op' k s ht ha | @locked u op' a k s ht ha | @asked u op' e k r s ht ha =>
      by_cases hu : u = t
      · subst hu
        cases hp'.symm.trans ht
        exact ⟨_, Function.update_self _ _ _⟩
      · exact hother rfl hu

/-- A thread that has begun no call has none. -/
theorem Run.tasks_not_started {s₀ : σ} (h : Run M ⟨s₀, fun _ => none⟩ tr c)
    (hno : ∀ op, .started t op ∉ tr) : c.tasks t = none := by
  generalize hc : (⟨s₀, fun _ => none⟩ : Config σ μ A E Rep Tid Op ρ) = c₁ at h
  induction h with
  | nil => rw [← hc]
  | @snoc tr c ev c' h hs ih =>
    have hidle := ih fun op hop => hno op (List.mem_append_left _ hop)
    cases hs with
    | @started u op s _ ha =>
      by_cases hu : t = u
      · subst hu
        exact absurd (by simp) (hno op)
      · exact (Function.update_of_ne hu _ _).trans hidle
    | @finished u op r s ht ha =>
      by_cases hu : t = u
      · subst hu
        exact Function.update_self _ _ _
      · exact (Function.update_of_ne hu _ _).trans hidle
    | crashed ha => rfl
    | @read u op' k s ht ha | @locked u op' a k s ht ha | @asked u op' e k r s ht ha =>
      by_cases hu : t = u
      · subst hu
        rw [hidle] at ht
        cases ht
      · exact (Function.update_of_ne hu _ _).trans hidle

/-- **What only `t` changes, and only by certain events**, is after its other events as it was
before. -/
theorem Run.journal_keeps {β : Type} {f : σ → β} {T : Event A E Rep Tid Op ρ → Prop} {s₀ : σ}
    (h : Run M ⟨s₀, fun _ => none⟩ tr c)
    (hown : ∀ {tr c ev c'}, Run M ⟨s₀, fun _ => none⟩ tr c → Step M c ev c' → ev.tid = some t →
      ¬ ev.Resets t → ¬ T ev → f c'.shared = f c.shared)
    (hother : ∀ {tr c ev c'}, Run M ⟨s₀, fun _ => none⟩ tr c → Step M c ev c' → ev.tid ≠ some t →
      ¬ ev.Resets t → M.journal t [] s₀ tr ≠ [] → f c'.shared = f c.shared)
    {l₁ l₂ : List (Event A E Rep Tid Op ρ × σ)} {s : σ}
    (hj : M.journal t [] s₀ tr = l₁ ++ (ev, s) :: l₂)
    (hno : ∀ e ∈ (ev, s) :: l₂, ¬ T e.1) : f c.shared = f s := by
  generalize hc : (⟨s₀, fun _ => none⟩ : Config σ μ A E Rep Tid Op ρ) = c₁ at h
  obtain rfl : s₀ = c₁.shared := by rw [← hc]
  induction h generalizing l₂ with
  | nil => simp [Machine.journal, Machine.history] at hj
  | @snoc tr c ev' c' h hs ih =>
    rw [h.journal_snoc hs] at hj
    by_cases hres : ev'.Resets t
    · rw [note_of_resets hres] at hj
      simp at hj
    by_cases htid : ev'.tid = some t
    · rw [note_of_tid htid hres] at hj
      rcases List.eq_nil_or_concat l₂ with rfl | ⟨l₂', e, rfl⟩
      · obtain ⟨-, he⟩ := List.append_inj' hj rfl
        cases he
        exact hown (hc.symm ▸ h) hs htid hres (hno (ev, c.shared) (by simp))
      · rw [List.concat_eq_append, ← List.cons_append, ← List.append_assoc] at hj
        obtain ⟨hl, he⟩ := List.append_inj' hj rfl
        cases he
        rw [hown (hc.symm ▸ h) hs htid hres (hno (ev', c.shared) (by simp))]
        refine ih (fun e he => hno e ?_) hl
        rw [List.concat_eq_append, ← List.cons_append]
        exact List.mem_append_left _ he
    · rw [note_of_ne htid hres] at hj
      rw [hother (hc.symm ▸ h) hs htid hres (by rw [hj]; simp)]
      exact ih hno hj

/-! ## Runs follow the text -/

/-- **Every run follows the text**: what is left of a call follows the journal of its thread. -/
theorem Run.follows
    {G : Op → List (Event A E Rep Tid Op ρ × σ) → Event A E Rep Tid Op ρ → σ → Prop}
    {Q : Op → List (Event A E Rep Tid Op ρ × σ) → ρ → Prop}
    {s₀ : σ} (h : Run M ⟨s₀, fun _ => none⟩ tr c)
    (hcode : ∀ op s s', M.apply (.started t op) s = some s' →
      M.Follows t (G op) (Q op) (M.code op) [])
    {op : Op} {p : Prog μ A E Rep ρ} (hp : c.tasks t = some (op, p)) :
    M.Follows t (G op) (Q op) p (M.journal t [] s₀ tr) := by
  generalize hc : (⟨s₀, fun _ => none⟩ : Config σ μ A E Rep Tid Op ρ) = c₁ at h
  obtain rfl : s₀ = c₁.shared := by rw [← hc]
  induction h generalizing op p with
  | nil =>
    rw [← hc] at hp
    cases hp
  | @snoc tr c ev c' h hs ih =>
    rw [h.journal_snoc hs]
    -- a step of another thread leaves task and journal alone
    have hother : ∀ {u task}, c'.tasks = Function.update c.tasks u task → ev.tid = some u →
        (u ≠ t → ¬ ev.Resets t) → u ≠ t →
        M.Follows t (G op) (Q op) p (note t (M.journal t [] c₁.shared tr) (ev, c.shared)) := by
      intro u task htasks htid hres hu
      rw [note_of_ne (fun he => hu (Option.some.inj (htid.symm.trans he))) (hres hu)]
      refine ih ?_
      rw [htasks, Function.update_of_ne (Ne.symm hu)] at hp
      exact hp
    cases hs with
    | @started u op' s _ ha =>
      by_cases hu : u = t
      · subst hu
        simp only [Function.update_self, Option.some.injEq, Prod.mk.injEq] at hp
        obtain ⟨rfl, rfl⟩ := hp
        simp only [note, if_true]
        exact hcode _ _ _ ha
      · exact hother rfl rfl (fun h => h) hu
    | @read u op' k s ht ha =>
      by_cases hu : u = t
      · subst hu
        simp only [Function.update_self, Option.some.injEq, Prod.mk.injEq] at hp
        obtain ⟨rfl, rfl⟩ := hp
        rw [note_of_tid rfl id]
        exact (ih ht _ _ ha).2
      · exact hother rfl rfl (fun _ => id) hu
    | @locked u op' a k s ht ha =>
      by_cases hu : u = t
      · subst hu
        simp only [Function.update_self, Option.some.injEq, Prod.mk.injEq] at hp
        obtain ⟨rfl, rfl⟩ := hp
        rw [note_of_tid rfl id]
        exact (ih ht _ _ ha).2
      · exact hother rfl rfl (fun _ => id) hu
    | @asked u op' e k r s ht ha =>
      by_cases hu : u = t
      · subst hu
        simp only [Function.update_self, Option.some.injEq, Prod.mk.injEq] at hp
        obtain ⟨rfl, rfl⟩ := hp
        rw [note_of_tid rfl id]
        exact (ih ht _ _ _ ha).2
      · exact hother rfl rfl (fun _ => id) hu
    | @finished u op' r s ht ha =>
      by_cases hu : u = t
      · subst hu
        simp at hp
      · exact hother rfl rfl (fun h => h) hu
    | crashed ha => cases hp

/-- Between its calls a thread has no journal. -/
theorem Run.journal_idle {s₀ : σ} (h : Run M ⟨s₀, fun _ => none⟩ tr c) (hp : c.tasks t = none) :
    M.journal t [] s₀ tr = [] := by
  generalize hc : (⟨s₀, fun _ => none⟩ : Config σ μ A E Rep Tid Op ρ) = c₁ at h
  obtain rfl : s₀ = c₁.shared := by rw [← hc]
  induction h with
  | nil => rfl
  | @snoc tr c ev c' h hs ih =>
    rw [h.journal_snoc hs]
    -- a step of another thread changes neither
    have hother : ∀ {u task}, c'.tasks = Function.update c.tasks u task → ev.tid = some u →
        (u ≠ t → ¬ ev.Resets t) → u ≠ t →
        note t (M.journal t [] c₁.shared tr) (ev, c.shared) = [] := by
      intro u task htasks htid hres hu
      rw [note_of_ne (fun he => hu (Option.some.inj (htid.symm.trans he))) (hres hu)]
      refine ih ?_
      rwa [htasks, Function.update_of_ne (Ne.symm hu)] at hp
    cases hs with
    | @started u op' s _ ha =>
      by_cases hu : u = t
      · exact if_pos hu
      · exact hother rfl rfl (fun h => h) hu
    | @finished u op' r s ht ha =>
      by_cases hu : u = t
      · exact if_pos hu
      · exact hother rfl rfl (fun h => h) hu
    | crashed ha => rfl
    | @read u op' k s ht ha | @locked u op' a k s ht ha | @asked u op' e k r s ht ha =>
      refine hother rfl rfl (fun _ => id) fun hu => ?_
      subst hu
      simp at hp

/-- **The next event of `t` is one the text of its call allows**, unless it begins a call. -/
theorem Run.follows_next
    {G : Op → List (Event A E Rep Tid Op ρ × σ) → Event A E Rep Tid Op ρ → σ → Prop}
    {Q : Op → List (Event A E Rep Tid Op ρ × σ) → ρ → Prop}
    {s₀ : σ} (h : Run M ⟨s₀, fun _ => none⟩ tr c)
    (hcode : ∀ op s s', M.apply (.started t op) s = some s' →
      M.Follows t (G op) (Q op) (M.code op) [])
    (hs : Step M c ev c') (ht : ev.tid = some t) :
    match ev with
    | .started _ _ => True
    | .finished _ op r => Q op (M.journal t [] s₀ tr) r
    | ev => ∃ op p, c.tasks t = some (op, p) ∧ G op (M.journal t [] s₀ tr) ev c.shared := by
  cases hs with
  | started => trivial
  | crashed => cases ht
  | read hp ha => cases ht; exact ⟨_, _, hp, (h.follows hcode hp _ _ ha).1⟩
  | locked hp ha => cases ht; exact ⟨_, _, hp, (h.follows hcode hp _ _ ha).1⟩
  | asked hp ha => cases ht; exact ⟨_, _, hp, (h.follows hcode hp _ _ _ ha).1⟩
  | finished hp ha => cases ht; exact h.follows hcode hp

end Journal

end Interleave
