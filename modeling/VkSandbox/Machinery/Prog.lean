import Mathlib.Logic.Function.Basic

/-!
# Machinery/Prog — programs that run interleaved

A goroutine is a tree of the things the rest of the world can see it do:

    ret a          it is finished, with result `a`
    read k         a read-locked section: it looks at the memory and goes on
    lock a k       a write-locked section, named `a`: it replaces the memory and goes on
    ask e k        it sends the request `e` out of the process and goes on with the reply

Between two nodes any other goroutine may run.  A `Machine` says what each of these does to the
state the goroutines share, `Step` interleaves them, and `Run` is a finite schedule with the events
it produced.
-/

namespace Interleave

/-! ## Programs -/

/-- A program over memory `μ`, with named critical sections `A` and requests `E` answered in
`Rep`. -/
inductive Prog (μ A E : Type) (Rep : E → Type) (α : Type) where
  | ret (a : α)
  | read (next : μ → Prog μ A E Rep α)
  | lock (a : A) (next : μ → Prog μ A E Rep α)
  | ask (e : E) (next : Rep e → Prog μ A E Rep α)

namespace Prog

variable {μ A E : Type} {Rep : E → Type} {α β : Type}

/-- Run `p`, then `f` on its result. -/
protected def bind : Prog μ A E Rep α → (α → Prog μ A E Rep β) → Prog μ A E Rep β
  | ret a, f => f a
  | read k, f => read fun m => (k m).bind f
  | lock a k, f => lock a fun m => (k m).bind f
  | ask e k, f => ask e fun r => (k r).bind f

instance : Monad (Prog μ A E Rep) where
  pure := ret
  bind := Prog.bind

@[simp] theorem ret_bind (a : α) (f : α → Prog μ A E Rep β) : (ret a >>= f) = f a := rfl

@[simp] theorem read_bind (k : μ → Prog μ A E Rep α) (f : α → Prog μ A E Rep β) :
    (read k >>= f) = read fun m => k m >>= f := rfl

@[simp] theorem lock_bind (a : A) (k : μ → Prog μ A E Rep α) (f : α → Prog μ A E Rep β) :
    (lock a k >>= f) = lock a fun m => k m >>= f := rfl

@[simp] theorem ask_bind (e : E) (k : Rep e → Prog μ A E Rep α) (f : α → Prog μ A E Rep β) :
    (ask e k >>= f) = ask e fun r => k r >>= f := rfl

protected theorem bind_assoc {γ : Type} (p : Prog μ A E Rep α) (f : α → Prog μ A E Rep β)
    (g : β → Prog μ A E Rep γ) : (p >>= f) >>= g = p >>= fun a => f a >>= g := by
  induction p with
  | ret a => rfl
  | read k ih => exact congrArg Prog.read (funext fun m => ih m)
  | lock a k ih => exact congrArg (Prog.lock a) (funext fun m => ih m)
  | ask e k ih => exact congrArg (Prog.ask e) (funext fun r => ih r)

/-- Look at the memory under the read lock. -/
def look (f : μ → α) : Prog μ A E Rep α := read fun m => ret (f m)

/-- Enter the critical section `a` and report what was found there, through `f`. -/
def enter (a : A) (f : μ → α) : Prog μ A E Rep α := lock a fun m => ret (f m)

/-- `if err := p; err != nil { return err }`, then `q`. -/
def orReturn {ε : Type} (p : Prog μ A E Rep (Except ε α)) (q : α → Prog μ A E Rep (Except ε β)) :
    Prog μ A E Rep (Except ε β) :=
  p >>= fun
    | .error err => ret (.error err)
    | .ok a => q a

/-- Every section the program may enter is one of `P`, whatever it finds and is told. -/
def Enters (P : A → Prop) : Prog μ A E Rep α → Prop
  | ret _ => True
  | read k => ∀ m, (k m).Enters P
  | lock a k => P a ∧ ∀ m, (k m).Enters P
  | ask _ k => ∀ r, (k r).Enters P

namespace Enters

variable {P : A → Prop}

theorem bind {p : Prog μ A E Rep α} {f : α → Prog μ A E Rep β} (h : p.Enters P)
    (hf : ∀ a, (f a).Enters P) : (p >>= f).Enters P := by
  induction p with
  | ret a => exact hf a
  | read k ih => exact fun m => ih m (h m)
  | lock a k ih => exact ⟨h.1, fun m => ih m (h.2 m)⟩
  | ask e k ih => exact fun r => ih r (h r)

theorem orReturn {ε : Type} {p : Prog μ A E Rep (Except ε α)} {q : α → Prog μ A E Rep (Except ε β)}
    (h : p.Enters P) (hq : ∀ a, (q a).Enters P) : (p.orReturn q).Enters P := by
  refine h.bind fun r => ?_
  cases r with
  | error err => trivial
  | ok a => exact hq a

theorem look {f : μ → α} {g : α → Prog μ A E Rep β} (h : ∀ m, (g (f m)).Enters P) :
    (Prog.look f >>= g).Enters P := h

theorem enter {a : A} {f : μ → α} {g : α → Prog μ A E Rep β} (ha : P a)
    (h : ∀ m, (g (f m)).Enters P) : (Prog.enter a f >>= g).Enters P := ⟨ha, h⟩

theorem mono {P' : A → Prop} {p : Prog μ A E Rep α} (h : p.Enters P) (hP : ∀ a, P a → P' a) :
    p.Enters P' := by
  induction p with
  | ret a => trivial
  | read k ih => exact fun m => ih m (h m)
  | lock a k ih => exact ⟨hP a h.1, fun m => ih m (h.2 m)⟩
  | ask e k ih => exact fun r => ih r (h r)

end Enters

/-- Every request the program may make is one of `P`, whatever it finds and is told. -/
def Asks (P : E → Prop) : Prog μ A E Rep α → Prop
  | ret _ => True
  | read k => ∀ m, (k m).Asks P
  | lock _ k => ∀ m, (k m).Asks P
  | ask e k => P e ∧ ∀ r, (k r).Asks P

namespace Asks

variable {P : E → Prop}

theorem bind {p : Prog μ A E Rep α} {f : α → Prog μ A E Rep β} (h : p.Asks P)
    (hf : ∀ a, (f a).Asks P) : (p >>= f).Asks P := by
  induction p with
  | ret a => exact hf a
  | read k ih => exact fun m => ih m (h m)
  | lock a k ih => exact fun m => ih m (h m)
  | ask e k ih => exact ⟨h.1, fun r => ih r (h.2 r)⟩

theorem orReturn {ε : Type} {p : Prog μ A E Rep (Except ε α)} {q : α → Prog μ A E Rep (Except ε β)}
    (h : p.Asks P) (hq : ∀ a, (q a).Asks P) : (p.orReturn q).Asks P := by
  refine h.bind fun r => ?_
  cases r with
  | error err => trivial
  | ok a => exact hq a

theorem look {f : μ → α} {g : α → Prog μ A E Rep β} (h : ∀ m, (g (f m)).Asks P) :
    (Prog.look f >>= g).Asks P := h

theorem enter {a : A} {f : μ → α} {g : α → Prog μ A E Rep β} (h : ∀ m, (g (f m)).Asks P) :
    (Prog.enter a f >>= g).Asks P := h

theorem mono {P' : E → Prop} {p : Prog μ A E Rep α} (h : p.Asks P) (hP : ∀ e, P e → P' e) :
    p.Asks P' := by
  induction p with
  | ret a => trivial
  | read k ih => exact fun m => ih m (h m)
  | lock a k ih => exact fun m => ih m (h m)
  | ask e k ih => exact ⟨hP e h.1, fun r => ih r (h.2 r)⟩

end Asks

/-- What a program returns when the memory stays `m` and every request is answered by `reply`. -/
def against (reply : (e : E) → Rep e) (m : μ) : Prog μ A E Rep α → α
  | ret a => a
  | read k => (k m).against reply m
  | lock _ k => (k m).against reply m
  | ask e k => (k (reply e)).against reply m

end Prog

/-! ## What the others can see -/

/-- One visible step: thread `t` begins a call, performs a node, or returns; or the process dies. -/
inductive Event (A E : Type) (Rep : E → Type) (Tid Op ρ : Type) where
  | started (t : Tid) (op : Op)
  | read (t : Tid)
  | locked (t : Tid) (a : A)
  | asked (t : Tid) (e : E) (r : Rep e)
  | finished (t : Tid) (op : Op) (r : ρ)
  | crashed

/-- The thread an event belongs to. -/
def Event.tid {A E : Type} {Rep : E → Type} {Tid Op ρ : Type} :
    Event A E Rep Tid Op ρ → Option Tid
  | started t _ | read t | locked t _ | asked t _ _ | finished t _ _ => some t
  | crashed => none

/-- A machine: the memory inside a shared state, the code of each operation, and what an event does
to the shared state (`none`: it cannot happen now). -/
structure Machine (σ μ A E : Type) (Rep : E → Type) (Tid Op ρ : Type) where
  mem : σ → μ
  code : Op → Prog μ A E Rep ρ
  apply : Event A E Rep Tid Op ρ → σ → Option σ

/-- The shared state and, for each thread, the operation it runs with what is left of it. -/
structure Config (σ μ A E : Type) (Rep : E → Type) (Tid Op ρ : Type) where
  shared : σ
  tasks : Tid → Option (Op × Prog μ A E Rep ρ)

section Conditions

variable {σ μ A E : Type} {Rep : E → Type} {Tid Op ρ : Type}

/-- **Every event of a trace meets a condition** on the state it finds, from a state on. -/
def Machine.Along (M : Machine σ μ A E Rep Tid Op ρ) (C : Event A E Rep Tid Op ρ → σ → Prop) :
    σ → List (Event A E Rep Tid Op ρ) → Prop
  | _, [] => True
  | s, ev :: rest => C ev s ∧ match M.apply ev s with
    | some s' => M.Along C s' rest
    | none => True

namespace Machine

variable {M : Machine σ μ A E Rep Tid Op ρ} {C : Event A E Rep Tid Op ρ → σ → Prop}

instance Along.decidable [∀ ev s, Decidable (C ev s)] :
    ∀ (s : σ) (tr : List (Event A E Rep Tid Op ρ)),
    Decidable (M.Along C s tr)
  | _, [] => .isTrue trivial
  | s, ev :: rest =>
    haveI : Decidable (match M.apply ev s with
        | some s' => M.Along C s' rest
        | none => True) :=
      match M.apply ev s with
      | some s' => Along.decidable s' rest
      | none => .isTrue trivial
    inferInstanceAs (Decidable (C ev s ∧ _))

theorem Along.head {s : σ} {ev : Event A E Rep Tid Op ρ} {tr : List (Event A E Rep Tid Op ρ)}
    (h : M.Along C s (ev :: tr)) : C ev s := h.1

theorem Along.tail {s s' : σ} {ev : Event A E Rep Tid Op ρ} {tr : List (Event A E Rep Tid Op ρ)}
    (h : M.Along C s (ev :: tr)) (ha : M.apply ev s = some s') : M.Along C s' tr := by
  have := h.2
  rwa [ha] at this

theorem Along.left {tr tr' : List (Event A E Rep Tid Op ρ)} :
    ∀ {s : σ}, M.Along C s (tr ++ tr') → M.Along C s tr := by
  induction tr with
  | nil => exact fun _ => trivial
  | cons ev tr ih =>
    refine fun {s} h => ⟨h.1, ?_⟩
    split
    · next s' ha => exact ih (h.tail ha)
    · trivial

theorem Along.and {C' : Event A E Rep Tid Op ρ → σ → Prop} {tr : List (Event A E Rep Tid Op ρ)} :
    ∀ {s : σ}, M.Along C s tr → M.Along C' s tr → M.Along (fun ev s => C ev s ∧ C' ev s) s tr := by
  induction tr with
  | nil => exact fun _ _ => trivial
  | cons ev tr ih =>
    refine fun {s} h h' => ⟨⟨h.1, h'.1⟩, ?_⟩
    split
    · next s' ha => exact ih (h.tail ha) (h'.tail ha)
    · trivial

end Machine

end Conditions

section Semantics

variable {σ μ A E : Type} {Rep : E → Type} {Tid Op ρ : Type} [DecidableEq Tid]

/-- **One step of the interleaving**: some thread performs the node at the head of its program. -/
inductive Step (M : Machine σ μ A E Rep Tid Op ρ) :
    Config σ μ A E Rep Tid Op ρ → Event A E Rep Tid Op ρ → Config σ μ A E Rep Tid Op ρ → Prop where
  | started {c t op s} : c.tasks t = none → M.apply (.started t op) c.shared = some s →
      Step M c (.started t op) ⟨s, Function.update c.tasks t (some (op, M.code op))⟩
  | read {c t op k s} : c.tasks t = some (op, .read k) → M.apply (.read t) c.shared = some s →
      Step M c (.read t) ⟨s, Function.update c.tasks t (some (op, k (M.mem c.shared)))⟩
  | locked {c t op a k s} : c.tasks t = some (op, .lock a k) →
      M.apply (.locked t a) c.shared = some s →
      Step M c (.locked t a) ⟨s, Function.update c.tasks t (some (op, k (M.mem c.shared)))⟩
  | asked {c t op e k r s} : c.tasks t = some (op, .ask e k) →
      M.apply (.asked t e r) c.shared = some s →
      Step M c (.asked t e r) ⟨s, Function.update c.tasks t (some (op, k r))⟩
  | finished {c t op r s} : c.tasks t = some (op, .ret r) →
      M.apply (.finished t op r) c.shared = some s →
      Step M c (.finished t op r) ⟨s, Function.update c.tasks t none⟩
  | crashed {c s} : M.apply .crashed c.shared = some s → Step M c .crashed ⟨s, fun _ => none⟩

/-- A run, with the events it produced, oldest first. -/
inductive Run (M : Machine σ μ A E Rep Tid Op ρ) (c₀ : Config σ μ A E Rep Tid Op ρ) :
    List (Event A E Rep Tid Op ρ) → Config σ μ A E Rep Tid Op ρ → Prop where
  | nil : Run M c₀ [] c₀
  | snoc {tr c ev c'} : Run M c₀ tr c → Step M c ev c' → Run M c₀ (tr ++ [ev]) c'

theorem Run.append {M : Machine σ μ A E Rep Tid Op ρ} {c₀ c₁ c₂ : Config σ μ A E Rep Tid Op ρ}
    {tr tr' : List (Event A E Rep Tid Op ρ)} (h : Run M c₀ tr c₁) (h' : Run M c₁ tr' c₂) :
    Run M c₀ (tr ++ tr') c₂ := by
  induction h' with
  | nil => simpa using h
  | snoc _ hs ih => rw [← List.append_assoc]; exact ih.snoc hs

/-! ## Running a schedule

A schedule entry names the thread that moves; the replies it may get on this move come as a
function of the request, so that no entry has to know which request is next. -/

/-- One entry of a schedule. -/
inductive Choice (E : Type) (Rep : E → Type) (Tid Op : Type) where
  | start (t : Tid) (op : Op)
  | move (t : Tid) (reply : (e : E) → Rep e)
  | crash

/-- The event and the configuration a schedule entry leads to. -/
def Config.next (M : Machine σ μ A E Rep Tid Op ρ) (c : Config σ μ A E Rep Tid Op ρ) :
    Choice E Rep Tid Op → Option (Event A E Rep Tid Op ρ × Config σ μ A E Rep Tid Op ρ)
  | .start t op =>
    if (c.tasks t).isNone then
      (M.apply (.started t op) c.shared).map fun s =>
        (.started t op, ⟨s, Function.update c.tasks t (some (op, M.code op))⟩)
    else none
  | .move t reply =>
    match c.tasks t with
    | none => none
    | some (op, .ret r) => (M.apply (.finished t op r) c.shared).map fun s =>
        (.finished t op r, ⟨s, Function.update c.tasks t none⟩)
    | some (op, .read k) => (M.apply (.read t) c.shared).map fun s =>
        (.read t, ⟨s, Function.update c.tasks t (some (op, k (M.mem c.shared)))⟩)
    | some (op, .lock a k) => (M.apply (.locked t a) c.shared).map fun s =>
        (.locked t a, ⟨s, Function.update c.tasks t (some (op, k (M.mem c.shared)))⟩)
    | some (op, .ask e k) => (M.apply (.asked t e (reply e)) c.shared).map fun s =>
        (.asked t e (reply e), ⟨s, Function.update c.tasks t (some (op, k (reply e)))⟩)
  | .crash => (M.apply .crashed c.shared).map fun s => (.crashed, ⟨s, fun _ => none⟩)

/-- A schedule entry that goes through is a step. -/
theorem Config.step_of_next {M : Machine σ μ A E Rep Tid Op ρ} {c c' : Config σ μ A E Rep Tid Op ρ}
    {ch : Choice E Rep Tid Op} {ev : Event A E Rep Tid Op ρ} (h : c.next M ch = some (ev, c')) :
    Step M c ev c' := by
  cases ch with
  | start t op =>
    simp only [next] at h
    split at h
    · next hn =>
      obtain ⟨s, hs, he⟩ := Option.map_eq_some_iff.mp h
      cases he
      exact .started (Option.isNone_iff_eq_none.mp hn) hs
    · cases h
  | move t reply =>
    simp only [next] at h
    split at h
    · cases h
    · next ht => obtain ⟨s, hs, he⟩ := Option.map_eq_some_iff.mp h; cases he; exact .finished ht hs
    · next ht => obtain ⟨s, hs, he⟩ := Option.map_eq_some_iff.mp h; cases he; exact .read ht hs
    · next ht => obtain ⟨s, hs, he⟩ := Option.map_eq_some_iff.mp h; cases he; exact .locked ht hs
    · next ht => obtain ⟨s, hs, he⟩ := Option.map_eq_some_iff.mp h; cases he; exact .asked ht hs
  | crash =>
    obtain ⟨s, hs, he⟩ := Option.map_eq_some_iff.mp h
    cases he
    exact .crashed hs

/-- Follow a whole schedule, collecting the events. -/
def Config.exec (M : Machine σ μ A E Rep Tid Op ρ) : List (Choice E Rep Tid Op) →
    Config σ μ A E Rep Tid Op ρ →
    Option (List (Event A E Rep Tid Op ρ) × Config σ μ A E Rep Tid Op ρ)
  | [], c => some ([], c)
  | ch :: rest, c =>
    match c.next M ch with
    | none => none
    | some (ev, c') => (exec M rest c').map fun p => (ev :: p.1, p.2)

/-- **A schedule that goes through is a run.** -/
theorem Config.run_of_exec {M : Machine σ μ A E Rep Tid Op ρ} :
    ∀ {sched : List (Choice E Rep Tid Op)} {c c' : Config σ μ A E Rep Tid Op ρ}
      {tr : List (Event A E Rep Tid Op ρ)}, c.exec M sched = some (tr, c') → Run M c tr c'
  | [], c, c', tr, h => by
    cases h
    exact .nil
  | ch :: rest, c, c', tr, h => by
    simp only [exec] at h
    split at h
    · cases h
    · next ev c₁ hn =>
      obtain ⟨⟨tr', c₂⟩, he, hp⟩ := Option.map_eq_some_iff.mp h
      cases hp
      have h₁ : Run M c [ev] c₁ := Run.nil.snoc (step_of_next hn)
      exact h₁.append (run_of_exec he)

end Semantics

end Interleave
