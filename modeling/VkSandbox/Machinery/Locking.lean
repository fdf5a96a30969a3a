import VkSandbox.Machinery.Journal

/-!
# Machinery/Locking — a lock that is taken and given back inside a call

Sections are atomic, so what can block is a request that waits for a lock another call holds:

    asked t take      waits until nobody holds the lock
    …                 at most `bound` nodes of `t`
    asked t give      nobody holds it

`Prog.Keeps` says that a program pairs the two on every path, counts the nodes in between and makes
only certain requests there; it is a recursion over the program, so it is proved by following its
text.  `Run.ordered` carries it along a run, and from it follow the things a lock can get wrong:
`Lock.held_briefly`, nobody keeps it for more than `bound` of its own events, and `Lock.completes`,
**from wherever a run has come to, every call can be brought to its end**.
-/

namespace Interleave

variable {σ μ A E : Type} {Rep : E → Type} {Tid Op ρ : Type} {α β : Type}

/-! ## Programs that pair take and give -/

/-- How a lock is to be used: the requests that take and give it, and what may be asked, and how
many nodes performed, in between. -/
structure LockRule (E : Type) where
  take : E
  give : E
  ne : take ≠ give
  inside : E → Prop
  bound : ℕ

/-- **The program pairs take and give.**  It starts without the lock (`none`) or with it and `n`
nodes to go before it has to be given back (`some n`), and ends as `Q` says. -/
def Prog.Keeps (d : LockRule E) (Q : α → Option ℕ → Prop) : Prog μ A E Rep α → Option ℕ → Prop
  | .ret a, h => Q a h
  | .read k, h => ∃ h', h = h'.map (· + 1) ∧ ∀ m, (k m).Keeps d Q h'
  | .lock _ k, h => ∃ h', h = h'.map (· + 1) ∧ ∀ m, (k m).Keeps d Q h'
  | .ask e k, h =>
    (e = d.take ∧ h = none ∧ ∀ r, (k r).Keeps d Q (some d.bound)) ∨
    (e = d.give ∧ h.isSome ∧ ∀ r, (k r).Keeps d Q none) ∨
    (e ≠ d.take ∧ e ≠ d.give ∧ (h.isSome → d.inside e) ∧
      ∃ h', h = h'.map (· + 1) ∧ ∀ r, (k r).Keeps d Q h')

namespace Prog.Keeps

variable {d : LockRule E} {h : Option ℕ}

theorem mono {p : Prog μ A E Rep α} {Q Q' : α → Option ℕ → Prop}
    (hp : p.Keeps d Q h) (hq : ∀ a h, Q a h → Q' a h) :
    p.Keeps d Q' h := by
  induction p generalizing h with
  | ret a => exact hq a h hp
  | read k ih | lock a k ih =>
    obtain ⟨h', rfl, hk⟩ := hp
    exact ⟨h', rfl, fun m => ih m (hk m)⟩
  | ask e k ih =>
    obtain ⟨he, hh, hk⟩ | ⟨he, hh, hk⟩ | ⟨hne, hne', hin, h', hh, hk⟩ := hp
    · exact .inl ⟨he, hh, fun r => ih r (hk r)⟩
    · exact .inr (.inl ⟨he, hh, fun r => ih r (hk r)⟩)
    · exact .inr (.inr ⟨hne, hne', hin, h', hh, fun r => ih r (hk r)⟩)

/-- A sequence, one program after the other. -/
theorem bind {p : Prog μ A E Rep α} {f : α → Prog μ A E Rep β} {Q : β → Option ℕ → Prop}
    (hp : p.Keeps d (fun a h => (f a).Keeps d Q h) h) :
    (p >>= f).Keeps d Q h := by
  induction p generalizing h with
  | ret a => exact hp
  | read k ih | lock a k ih =>
    obtain ⟨h', rfl, hk⟩ := hp
    exact ⟨h', rfl, fun m => ih m (hk m)⟩
  | ask e k ih =>
    obtain ⟨he, hh, hk⟩ | ⟨he, hh, hk⟩ | ⟨hne, hne', hin, h', hh, hk⟩ := hp
    · exact .inl ⟨he, hh, fun r => ih r (hk r)⟩
    · exact .inr (.inl ⟨he, hh, fun r => ih r (hk r)⟩)
    · exact .inr (.inr ⟨hne, hne', hin, h', hh, fun r => ih r (hk r)⟩)

/-- The spec of a helper, used where it is called. -/
theorem call {p : Prog μ A E Rep α} {f : α → Prog μ A E Rep β} {P : α → Option ℕ → Prop}
    {Q : β → Option ℕ → Prop} (hp : p.Keeps d P h)
    (hf : ∀ a h, P a h → (f a).Keeps d Q h) : (p >>= f).Keeps d Q h :=
  bind (hp.mono hf)

/-- A node that has nothing to do with the lock. -/
theorem look {f : μ → α} {g : α → Prog μ A E Rep β} {Q : β → Option ℕ → Prop}
    (hg : ∀ m, (g (f m)).Keeps d Q h) :
    (Prog.look f >>= g).Keeps d Q (h.map (· + 1)) := ⟨h, rfl, hg⟩

theorem enter {a : A} {f : μ → α} {g : α → Prog μ A E Rep β} {Q : β → Option ℕ → Prop}
    (hg : ∀ m, (g (f m)).Keeps d Q h) :
    (Prog.enter a f >>= g).Keeps d Q (h.map (· + 1)) := ⟨h, rfl, hg⟩

/-- A request that has nothing to do with it either. -/
theorem ask {e : E} {g : Rep e → Prog μ A E Rep β} {Q : β → Option ℕ → Prop} (ht : e ≠ d.take)
    (hg : e ≠ d.give) (hin : h.isSome → d.inside e) (hk : ∀ r, (g r).Keeps d Q h) :
    (Prog.ask e g).Keeps d Q (h.map (· + 1)) :=
  .inr (.inr ⟨ht, hg, fun hsome => hin (by rwa [Option.isSome_map] at hsome), h, rfl, hk⟩)

end Prog.Keeps

/-- **The program takes the lock only to give it back**, and ends as it began, without it. -/
def Prog.Balanced (d : LockRule E) (p : Prog μ A E Rep α) : Prop :=
  p.Keeps d (fun _ h => h = none) none

namespace Prog.Balanced

variable {d : LockRule E}

theorem bind {p : Prog μ A E Rep α} {f : α → Prog μ A E Rep β} (hp : p.Balanced d)
    (hf : ∀ a, (f a).Balanced d) : (p >>= f).Balanced d := by
  refine Keeps.call hp fun a h hh => ?_
  subst hh
  exact hf a

theorem orReturn {ε : Type} {p : Prog μ A E Rep (Except ε α)} {q : α → Prog μ A E Rep (Except ε β)}
    (hp : p.Balanced d) (hq : ∀ a, (q a).Balanced d) : (p.orReturn q).Balanced d := by
  refine hp.bind fun r => ?_
  cases r with
  | error err => rfl
  | ok a => exact hq a

theorem look {f : μ → α} {g : α → Prog μ A E Rep β} (hg : ∀ m, (g (f m)).Balanced d) :
    (Prog.look f >>= g).Balanced d := Keeps.look hg

theorem enter {a : A} {f : μ → α} {g : α → Prog μ A E Rep β} (hg : ∀ m, (g (f m)).Balanced d) :
    (Prog.enter a f >>= g).Balanced d := Keeps.enter hg

/-- **Code that never asks for the lock.** -/
theorem of_asks {P : E → Prop} {p : Prog μ A E Rep α} (hp : p.Asks P)
    (hP : ∀ e, P e → e ≠ d.take ∧ e ≠ d.give) : p.Balanced d := by
  induction p with
  | ret a => rfl
  | read k ih | lock a k ih => exact ⟨none, rfl, fun m => ih m (hp m)⟩
  | ask e k ih =>
    obtain ⟨ht, hg⟩ := hP e hp.1
    exact Keeps.ask ht hg (by simp) fun r => ih r (hp.2 r)

end Prog.Balanced

/-! ## The lock of a machine -/

/-- An event that moves the lock. -/
def Event.Handles (d : LockRule E) : Event A E Rep Tid Op ρ → Prop
  | .asked _ e _ => e = d.take ∨ e = d.give
  | .crashed => True
  | _ => False

/-- **A lock**: its rule, and who holds it. -/
structure Lock (M : Machine σ μ A E Rep Tid Op ρ) extends LockRule E where
  holder : σ → Option Tid
  taken : ∀ {t r s s'}, M.apply (.asked t take r) s = some s' → holder s = none ∧ holder s' = some t
  given : ∀ {t r s s'}, M.apply (.asked t give r) s = some s' → holder s' = none
  crashed : ∀ {s s'}, M.apply .crashed s = some s' → holder s' = none
  kept : ∀ {ev s s'}, M.apply ev s = some s' → ¬ ev.Handles toLockRule → holder s' = holder s

/-- The whole code of a call pairs take and give. -/
def Lock.Paired {M : Machine σ μ A E Rep Tid Op ρ} (L : Lock M) (p : Prog μ A E Rep ρ)
    (h : Option ℕ) :
    Prop := p.Keeps L.toLockRule (fun _ h => h = none) h

/-- **Every call in progress holds the lock exactly where its text does**, and nobody else holds
it. -/
structure Lock.Ordered {M : Machine σ μ A E Rep Tid Op ρ} (L : Lock M)
    (c : Config σ μ A E Rep Tid Op ρ) : Prop where
  paired : ∀ {t op p}, c.tasks t = some (op, p) → ∃ h, L.Paired p h ∧
    (h.isSome ↔ L.holder c.shared = some t) ∧ ∀ n ∈ h, n ≤ L.bound
  held : ∀ {t}, L.holder c.shared = some t → ∃ op p, c.tasks t = some (op, p)

variable [DecidableEq Tid] {M : Machine σ μ A E Rep Tid Op ρ} {L : Lock M}
  {c c' : Config σ μ A E Rep Tid Op ρ} {ev : Event A E Rep Tid Op ρ} {t : Tid}
  {tr : List (Event A E Rep Tid Op ρ)}

namespace Lock.Ordered

omit [DecidableEq Tid] in
theorem idle {s : σ} (h : L.holder s = none) :
    L.Ordered (⟨s, fun _ => none⟩ : Config σ μ A E Rep Tid Op ρ) where
  paired := fun ht => by cases ht
  held := fun ht => by cases h.symm.trans ht

/-- One thread goes on with `task`, in a state where the others hold the lock as before. -/
theorem update (hc : L.Ordered c) {s : σ} {task : Option (Op × Prog μ A E Rep ρ)}
    (hother : ∀ u, u ≠ t → (L.holder s = some u ↔ L.holder c.shared = some u))
    (hpaired : ∀ {op p}, task = some (op, p) → ∃ h, L.Paired p h ∧
      (h.isSome ↔ L.holder s = some t) ∧ ∀ n ∈ h, n ≤ L.bound)
    (hheld : L.holder s = some t → ∃ op p, task = some (op, p)) :
    L.Ordered ⟨s, Function.update c.tasks t task⟩ := by
  constructor
  · intro u op p hu
    dsimp only at hu
    by_cases htu : u = t
    · subst htu
      rw [Function.update_self] at hu
      exact hpaired hu
    · rw [Function.update_of_ne htu] at hu
      obtain ⟨h, hp, hh, hn⟩ := hc.paired hu
      exact ⟨h, hp, hh.trans (hother u htu).symm, hn⟩
  · intro u hu
    dsimp only at hu ⊢
    by_cases htu : u = t
    · subst htu
      rw [Function.update_self]
      exact hheld hu
    · rw [Function.update_of_ne htu]
      exact hc.held ((hother u htu).mp hu)

/-- The same where the event leaves the lock alone and the text counts one node. -/
theorem node (hc : L.Ordered c) {s : σ} {op : Op} {p : Prog μ A E Rep ρ} {h h' : Option ℕ}
    (hsame : L.holder s = L.holder c.shared) (hp : L.Paired p h')
    (hh : h.isSome ↔ L.holder c.shared = some t) (hn : ∀ n ∈ h, n ≤ L.bound)
    (hcount : h = h'.map (· + 1)) :
    L.Ordered ⟨s, Function.update c.tasks t (some (op, p))⟩ := by
  refine hc.update (fun u _ => by rw [hsame]) (fun he => ?_) fun _ => ⟨op, p, rfl⟩
  cases he
  subst hcount
  refine ⟨h', hp, ?_, fun n hn' => ?_⟩
  · rw [hsame, ← hh, Option.isSome_map]
  · have := hn (n + 1) (by rw [Option.mem_def.mp hn']; rfl)
    omega

/-- **One step keeps the order.** -/
theorem step (hc : L.Ordered c) (hcode : ∀ op, (M.code op).Balanced L.toLockRule)
    (hs : Step M c ev c') : L.Ordered c' := by
  cases hs with
  | @started t op s hidle ha =>
    have hsame : L.holder s = L.holder c.shared :=
      L.kept ha id
    have hfree : L.holder s ≠ some t := by
      intro ht
      obtain ⟨op', p, hp⟩ := hc.held (hsame ▸ ht)
      cases hidle.symm.trans hp
    refine hc.update (fun u _ => by rw [hsame]) (fun he => ?_) fun ht => absurd ht hfree
    cases he
    exact ⟨none, hcode op, ⟨(by cases ·), fun h => absurd h hfree⟩, fun n hn => by cases hn⟩
  | @read t op k s ht ha =>
    obtain ⟨h, ⟨h', hcount, hk⟩, hh, hn⟩ := hc.paired ht
    exact hc.node (L.kept ha id) (hk _) hh hn hcount
  | @locked t op a k s ht ha =>
    obtain ⟨h, ⟨h', hcount, hk⟩, hh, hn⟩ := hc.paired ht
    exact hc.node (L.kept ha id) (hk _) hh hn hcount
  | @asked t op e k r s ht ha =>
    obtain ⟨h, hp, hh, hn⟩ := hc.paired ht
    obtain ⟨rfl, -, hk⟩ | ⟨rfl, hsome, hk⟩ | ⟨hne, hne', -, h', hcount, hk⟩ := hp
    · obtain ⟨hnone, htaken⟩ := L.taken ha
      refine hc.update (fun u hu => ?_) (fun he => ?_) fun _ => ⟨op, k r, rfl⟩
      · rw [htaken, hnone]
        exact ⟨fun h => absurd (Option.some.inj h).symm hu, (by cases ·)⟩
      · cases he
        exact ⟨some L.bound, hk r, ⟨fun _ => htaken, fun _ => rfl⟩,
          fun n hn => by cases hn; exact Nat.le_refl _⟩
    · have hgiven := L.given ha
      have hmine := hh.mp hsome
      refine hc.update (fun u hu => ?_) (fun he => ?_) fun h => by cases hgiven.symm.trans h
      · rw [hgiven, hmine]
        exact ⟨(by cases ·), fun h => absurd (Option.some.inj h).symm hu⟩
      · cases he
        refine ⟨none, hk r, ⟨(by cases ·), fun h => ?_⟩, fun n hn => by cases hn⟩
        cases hgiven.symm.trans h
    · exact hc.node (L.kept ha fun h => h.elim hne hne') (hk r) hh hn hcount
  | @finished t op r s ht ha =>
    obtain ⟨h, hnone, hh, -⟩ := hc.paired ht
    have hsame : L.holder s = L.holder c.shared :=
      L.kept ha id
    refine hc.update (fun u _ => by rw [hsame]) (fun he => by cases he) fun hmine => ?_
    have hsome := hh.mpr (hsame ▸ hmine)
    rw [show h = none from hnone] at hsome
    cases hsome
  | crashed ha => exact idle (L.crashed ha)

end Lock.Ordered

/-- **The order holds along every run.** -/
theorem Run.ordered (h : Run M c tr c') (hc : L.Ordered c)
    (hcode : ∀ op, (M.code op).Balanced L.toLockRule) : L.Ordered c' := by
  induction h with
  | nil => exact hc
  | snoc _ hs ih => exact ih.step hcode hs

/-! ## Nobody keeps it for long -/

/-- The events of one thread. -/
def ownEvents (t : Tid) (tr : List (Event A E Rep Tid Op ρ)) : List (Event A E Rep Tid Op ρ) :=
  tr.filter (·.tid = some t)

theorem ownEvents_snoc (t : Tid) (tr : List (Event A E Rep Tid Op ρ))
    (ev : Event A E Rep Tid Op ρ) :
    ownEvents t (tr ++ [ev]) = ownEvents t tr ++ if ev.tid = some t then [ev] else [] := by
  rw [ownEvents, List.filter_append]
  congr 1
  by_cases h : ev.tid = some t <;> simp [h]

namespace Lock.Ordered

/-- Only its holder gives the lock back. -/
theorem holder_of_give (hc : L.Ordered c) {r : Rep L.give} (hs : Step M c (.asked t L.give r) c') :
    L.holder c.shared = some t := by
  cases hs with
  | asked ht ha =>
    obtain ⟨h, hp, hh, -⟩ := hc.paired ht
    obtain ⟨he, -⟩ | ⟨-, hsome, -⟩ | ⟨-, hne, -⟩ := hp
    · exact absurd he.symm L.ne
    · exact hh.mp hsome
    · exact absurd rfl hne

/-- What the holder may ask for before it gives the lock back. -/
theorem inside_of_holds (hc : L.Ordered c) {e : E} {r : Rep e} (hs : Step M c (.asked t e r) c')
    (hmine : L.holder c.shared = some t) : e = L.give ∨ L.inside e := by
  cases hs with
  | asked ht ha =>
    obtain ⟨h, hp, hh, -⟩ := hc.paired ht
    have hsome := hh.mpr hmine
    obtain ⟨-, rfl, -⟩ | ⟨he, -⟩ | ⟨-, -, hin, -⟩ := hp
    · cases hsome
    · exact .inl he
    · exact .inr (hin hsome)

/-- Until it gives it back, the lock stays with its holder. -/
theorem holder_step (hc : L.Ordered c) (hs : Step M c ev c') (hmine : L.holder c.shared = some t)
    (hno : ∀ r, ev ≠ .asked t L.give r) (hcrash : ev ≠ .crashed) : L.holder c'.shared = some t := by
  refine (L.kept hs.apply fun hhandles => ?_).trans hmine
  cases ev with
  | asked u e r =>
    obtain rfl | rfl := hhandles
    · cases (L.taken hs.apply).1.symm.trans hmine
    · obtain rfl : u = t := Option.some.inj ((hc.holder_of_give hs).symm.trans hmine)
      exact hno r rfl
  | crashed => exact hcrash rfl
  | _ => exact hhandles

/-- **With each of its events the holder comes one node nearer** to giving the lock back. -/
theorem own_step {op : Op} {p : Prog μ A E Rep ρ} {n : ℕ} (hs : Step M c ev c')
    (htid : ev.tid = some t) (hno : ∀ r, ev ≠ .asked t L.give r) (hp : c.tasks t = some (op, p))
    (hk : L.Paired p (some n)) :
    ∃ p' n', c'.tasks t = some (op, p') ∧ L.Paired p' (some n') ∧ n = n' + 1 := by
  cases hs with
  | crashed => cases htid
  | started hidle ha =>
    cases htid
    cases hidle.symm.trans hp
  | finished ht ha =>
    cases htid
    cases hp.symm.trans ht
    cases hk
  | read ht ha | locked ht ha =>
    cases htid
    cases hp.symm.trans ht
    obtain ⟨h', hcount, hk'⟩ := hk
    obtain ⟨n', rfl, hn⟩ := Option.map_eq_some_iff.mp hcount.symm
    exact ⟨_, n', Function.update_self _ _ _, hk' _, hn.symm⟩
  | @asked u op' e k r s ht ha =>
    cases htid
    cases hp.symm.trans ht
    obtain ⟨-, hnone, -⟩ | ⟨rfl, -, -⟩ | ⟨-, -, -, h', hcount, hk'⟩ := hk
    · cases hnone
    · exact absurd rfl (hno r)
    · obtain ⟨n', rfl, hn⟩ := Option.map_eq_some_iff.mp hcount.symm
      exact ⟨_, n', Function.update_self _ _ _, hk' r, hn.symm⟩

end Lock.Ordered

/-- A step of another thread leaves a call alone. -/
theorem Step.tasks_of_ne (hs : Step M c ev c') (htid : ev.tid ≠ some t) (hcrash : ev ≠ .crashed) :
    c'.tasks t = c.tasks t := by
  refine (Run.nil.snoc hs).tasks_quiet (fun ev' hev => ?_) fun ev' hev => ?_
  · rw [List.mem_singleton.mp hev]
    exact htid
  · rw [List.mem_singleton.mp hev]
    exact hcrash

/-- **Nobody keeps the lock for more than `bound` of its own events**, nor asks for anything but
what the rule allows meanwhile. -/
theorem Lock.held_briefly (h : Run M c tr c') (hc : L.Ordered c)
    (hcode : ∀ op, (M.code op).Balanced L.toLockRule) (hmine : L.holder c.shared = some t)
    (hno : ∀ r, .asked t L.give r ∉ tr) (hcrash : .crashed ∉ tr) :
    L.holder c'.shared = some t ∧ (ownEvents t tr).length ≤ L.bound ∧
      ∀ e r, .asked t e r ∈ tr → L.inside e := by
  -- along the way it still holds the lock, with the rest of its nodes to go
  suffices hleft : L.holder c'.shared = some t ∧ (∀ e r, .asked t e r ∈ tr → L.inside e) ∧
      ∃ op p n, c'.tasks t = some (op, p) ∧ L.Paired p (some n) ∧
        (ownEvents t tr).length + n ≤ L.bound by
    obtain ⟨hheld, hin, op, p, n, -, -, hlen⟩ := hleft
    exact ⟨hheld, by omega, hin⟩
  induction h with
  | nil =>
    obtain ⟨op, p, hp⟩ := hc.held hmine
    obtain ⟨h, hk, hh, hn⟩ := hc.paired hp
    obtain ⟨n, rfl⟩ := Option.isSome_iff_exists.mp (hh.mpr hmine)
    refine ⟨hmine, fun e r hr => ?_, op, p, n, hp, hk, by simpa [ownEvents] using hn n rfl⟩
    cases hr
  | @snoc tr c₁ ev c₂ h₁ hs ih =>
    obtain ⟨hheld, hin, op, p, n, hp, hk, hlen⟩ :=
      ih (fun r hr => hno r (List.mem_append_left _ hr))
      fun hr => hcrash (List.mem_append_left _ hr)
    have hno' : ∀ r, ev ≠ .asked t L.give r := by
      rintro r rfl
      exact hno r (by simp)
    have hcrash' : ev ≠ .crashed := by
      rintro rfl
      exact hcrash (by simp)
    have hord := h₁.ordered hc hcode
    refine ⟨hord.holder_step hs hheld hno' hcrash', fun e r hr => ?_, ?_⟩
    · rcases List.mem_append.mp hr with hr | hr
      · exact hin e r hr
      · obtain rfl := List.mem_singleton.mp hr
        obtain rfl | hin' := hord.inside_of_holds hs hheld
        · exact absurd rfl (hno' r)
        · exact hin'
    rw [ownEvents_snoc]
    by_cases htid : ev.tid = some t
    · obtain ⟨p', n', hp', hk', rfl⟩ := Ordered.own_step hs htid hno' hp hk
      refine ⟨op, p', n', hp', hk', ?_⟩
      rw [if_pos htid, List.length_append, List.length_singleton]
      omega
    · refine ⟨op, p, n, (hs.tasks_of_ne htid hcrash').trans hp, hk, ?_⟩
      rwa [if_neg htid, List.append_nil]

/-! ## Every call can be brought to its end -/

/-- **The world answers**: every node but a `take` can be performed, with some reply, and a `take`
while nobody holds the lock. -/
structure Lock.Responsive (L : Lock M) : Prop where
  read : ∀ t s, ∃ s', M.apply (.read t) s = some s'
  locked : ∀ t a s, ∃ s', M.apply (.locked t a) s = some s'
  finished : ∀ t op r s, ∃ s', M.apply (.finished t op r) s = some s'
  asked : ∀ t e s, e ≠ L.take → e ≠ L.give → ∃ r s', M.apply (.asked t e r) s = some s'
  take : ∀ t s, L.holder s = none → ∃ r s', M.apply (.asked t L.take r) s = some s'
  give : ∀ t s, L.holder s = some t → ∃ r s', M.apply (.asked t L.give r) s = some s'

/-- An event of a call in progress. -/
def Event.Continues : Event A E Rep Tid Op ρ → Prop
  | .started _ _ | .crashed => False
  | _ => True

/-- **A call moves**, unless it waits for a lock that another holds. -/
theorem Lock.Ordered.moves (hc : L.Ordered c) (hL : L.Responsive) {op : Op}
    {p : Prog μ A E Rep ρ} (hp : c.tasks t = some (op, p))
    (hfree : ∀ k, p = .ask L.take k → L.holder c.shared = none) :
    ∃ ev c', Step M c ev c' ∧ ev.tid = some t ∧ ev.Continues := by
  obtain ⟨h, hk, hh, -⟩ := hc.paired hp
  cases p with
  | ret r =>
    obtain ⟨s, ha⟩ := hL.finished t op r c.shared
    exact ⟨_, _, .finished hp ha, rfl, trivial⟩
  | read k =>
    obtain ⟨s, ha⟩ := hL.read t c.shared
    exact ⟨_, _, .read hp ha, rfl, trivial⟩
  | lock a k =>
    obtain ⟨s, ha⟩ := hL.locked t a c.shared
    exact ⟨_, _, .locked hp ha, rfl, trivial⟩
  | ask e k =>
    obtain ⟨rfl, -, -⟩ | ⟨rfl, hsome, -⟩ | ⟨hne, hne', -⟩ := hk
    · obtain ⟨r, s, ha⟩ := hL.take t c.shared (hfree k rfl)
      exact ⟨_, _, .asked hp ha, rfl, trivial⟩
    · obtain ⟨r, s, ha⟩ := hL.give t c.shared (hh.mp hsome)
      exact ⟨_, _, .asked hp ha, rfl, trivial⟩
    · obtain ⟨r, s, ha⟩ := hL.asked t e c.shared hne hne'
      exact ⟨_, _, .asked hp ha, rfl, trivial⟩

omit [DecidableEq Tid] in
/-- A holder is never the one that waits. -/
theorem Lock.Ordered.not_waiting (hc : L.Ordered c) (hmine : L.holder c.shared = some t) {op : Op}
    {k : Rep L.take → Prog μ A E Rep ρ} : c.tasks t ≠ some (op, .ask L.take k) := by
  intro hp
  obtain ⟨h, hk, hh, -⟩ := hc.paired hp
  obtain ⟨-, hnone, -⟩ | ⟨he, -⟩ | ⟨hne, -⟩ := hk
  · have hsome := hh.mpr hmine
    rw [hnone] at hsome
    cases hsome
  · exact L.ne he
  · exact hne rfl

/-- From `c` the call of `t` can be brought to its end, with nobody holding the lock then and the
other calls where they were. -/
def Lock.Ends (L : Lock M) (c : Config σ μ A E Rep Tid Op ρ) (t : Tid) : Prop :=
  ∃ tr c', Run M c tr c' ∧ (∀ ev ∈ tr, ev.Continues) ∧ c'.tasks = Function.update c.tasks t none ∧
    L.holder c'.shared = none

theorem Lock.Ends.cons {s : σ} {task : Option (Op × Prog μ A E Rep ρ)}
    (h : L.Ends (⟨s, Function.update c.tasks t task⟩ : Config σ μ A E Rep Tid Op ρ) t)
    (hs : Step M c ev ⟨s, Function.update c.tasks t task⟩) (hev : ev.Continues) : L.Ends c t := by
  obtain ⟨tr, c', hrun, hall, htasks, hfree⟩ := h
  refine ⟨ev :: tr, c', Run.append (Run.nil.snoc hs) hrun, List.forall_mem_cons.mpr ⟨hev, hall⟩, ?_,
    hfree⟩
  rw [htasks]
  exact Function.update_idem _ _ _

/-- **A call that has the lock, or finds it free, can be brought to its end** by itself. -/
theorem Lock.ends_alone (hL : L.Responsive) {op : Op} {p : Prog μ A E Rep ρ} {h : Option ℕ}
    (hp : c.tasks t = some (op, p)) (hk : L.Paired p h)
    (hh : L.holder c.shared = h.map fun _ => t) : L.Ends c t := by
  induction p generalizing c h with
  | ret r =>
    obtain rfl : h = none := hk
    obtain ⟨s, ha⟩ := hL.finished t op r c.shared
    refine ⟨[_], _, Run.nil.snoc (.finished hp ha), fun ev hev => ?_, rfl, (L.kept ha id).trans hh⟩
    rw [List.mem_singleton.mp hev]
    trivial
  | read k ih =>
    obtain ⟨s, ha⟩ := hL.read t c.shared
    obtain ⟨h', rfl, hk'⟩ := hk
    rw [Option.map_map] at hh
    exact (ih _ (Function.update_self _ _ _) (hk' _) ((L.kept ha id).trans hh)).cons
      (.read hp ha) trivial
  | lock a k ih =>
    obtain ⟨s, ha⟩ := hL.locked t a c.shared
    obtain ⟨h', rfl, hk'⟩ := hk
    rw [Option.map_map] at hh
    exact (ih _ (Function.update_self _ _ _) (hk' _) ((L.kept ha id).trans hh)).cons
      (.locked hp ha) trivial
  | ask e k ih =>
    obtain ⟨rfl, rfl, hk'⟩ | ⟨rfl, hsome, hk'⟩ | ⟨hne, hne', -, h', rfl, hk'⟩ := hk
    · obtain ⟨r, s, ha⟩ := hL.take t c.shared hh
      exact (ih r (Function.update_self _ _ _) (hk' r) (L.taken ha).2).cons (.asked hp ha) trivial
    · obtain ⟨n, rfl⟩ := Option.isSome_iff_exists.mp hsome
      obtain ⟨r, s, ha⟩ := hL.give t c.shared hh
      exact (ih r (Function.update_self _ _ _) (hk' r) (L.given ha)).cons (.asked hp ha) trivial
    · obtain ⟨r, s, ha⟩ := hL.asked t e c.shared hne hne'
      rw [Option.map_map] at hh
      have hsame := L.kept ha fun h => h.elim hne hne'
      exact (ih r (Function.update_self _ _ _) (hk' r) (hsame.trans hh)).cons (.asked hp ha) trivial

/-- Only finitely many calls are in progress. -/
theorem Run.tasks_finite {s₀ : σ} (h : Run M ⟨s₀, fun _ => none⟩ tr c) :
    ∃ l : List Tid, ∀ t, c.tasks t ≠ none → t ∈ l := by
  refine ⟨tr.filterMap Event.tid, fun t ht => ?_⟩
  by_contra hno
  refine ht (h.tasks_not_started fun op hop => hno ?_)
  exact List.mem_filterMap.mpr ⟨_, hop, rfl⟩

/-- With the lock free, all of them can be brought to their ends, one after the other. -/
theorem Lock.completes_free (hL : L.Responsive) (hcode : ∀ op, (M.code op).Balanced L.toLockRule)
    {l : List Tid} (hc : L.Ordered c) (hfree : L.holder c.shared = none)
    (hl : ∀ t, c.tasks t ≠ none → t ∈ l) :
    ∃ tr c', Run M c tr c' ∧ (∀ ev ∈ tr, ev.Continues) ∧ (∀ t, c'.tasks t = none) ∧
      L.holder c'.shared = none := by
  induction l generalizing c with
  | nil =>
    refine ⟨[], c, .nil, List.forall_mem_nil _, fun t => ?_, hfree⟩
    by_contra ht
    cases hl t ht
  | cons u l ih =>
    cases hu : c.tasks u with
    | none =>
      refine ih hc hfree fun t ht => ?_
      obtain rfl | ht' := List.mem_cons.mp (hl t ht)
      · exact absurd hu ht
      · exact ht'
    | some task =>
      obtain ⟨op, p⟩ := task
      obtain ⟨h, hk, hh, -⟩ := hc.paired hu
      obtain rfl : h = none := by
        rw [← Option.not_isSome_iff_eq_none, hh, hfree]
        simp
      obtain ⟨tr, c₁, hrun, hall, htasks, hfree₁⟩ := Lock.ends_alone hL hu hk hfree
      obtain ⟨tr', c₂, hrun', hall', hdone⟩ := ih (hrun.ordered hc hcode) hfree₁ fun t ht => by
        rw [htasks] at ht
        by_cases htu : t = u
        · subst htu
          exact absurd (Function.update_self _ _ _) ht
        · rw [Function.update_of_ne htu] at ht
          exact (List.mem_cons.mp (hl t ht)).resolve_left htu
      exact ⟨tr ++ tr', c₂, hrun.append hrun', List.forall_mem_append.mpr ⟨hall, hall'⟩, hdone⟩

/-- **From wherever a run has come to, every call can be brought to its end**: the holder of the
lock first, then the others. -/
theorem Lock.completes {s₀ : σ} (hL : L.Responsive)
    (hcode : ∀ op, (M.code op).Balanced L.toLockRule) (h₀ : L.holder s₀ = none)
    (h : Run M ⟨s₀, fun _ => none⟩ tr c) :
    ∃ tr' c', Run M c tr' c' ∧ (∀ ev ∈ tr', ev.Continues) ∧ (∀ t, c'.tasks t = none) ∧
      L.holder c'.shared = none := by
  have hc : L.Ordered c := h.ordered (.idle h₀) hcode
  obtain ⟨l, hl⟩ := h.tasks_finite
  cases hheld : L.holder c.shared with
  | none => exact Lock.completes_free hL hcode hc hheld hl
  | some u =>
    obtain ⟨op, p, hu⟩ := hc.held hheld
    obtain ⟨h, hk, hh, -⟩ := hc.paired hu
    obtain ⟨n, rfl⟩ := Option.isSome_iff_exists.mp (hh.mpr hheld)
    obtain ⟨tr₁, c₁, hrun, hall, htasks, hfree⟩ := Lock.ends_alone hL hu hk hheld
    obtain ⟨tr₂, c₂, hrun', hall', hdone⟩ :=
      Lock.completes_free hL hcode (hrun.ordered hc hcode) hfree fun t ht => by
        rw [htasks] at ht
        by_cases htu : t = u
        · subst htu
          exact absurd (Function.update_self _ _ _) ht
        · rw [Function.update_of_ne htu] at ht
          exact hl t ht
    exact ⟨tr₁ ++ tr₂, c₂, hrun.append hrun', List.forall_mem_append.mpr ⟨hall, hall'⟩, hdone⟩

end Interleave
