import VkSandbox.Machinery.Journal
import VkSandbox.Provider.Effects

/-!
# Provider/Journals — the order of events inside one call

The guards of the outline say what a thread knows before an event; the journal says what its call
has done before it.  Here `Machine.Follows` is read at this machine, one rule per node, and an entry
of a journal is tied back to the moment of the run it stands for.
-/

namespace VkSandbox

open Interleave Interleave.Prog

/-- An event and the state it found. -/
abbrev Entry := Ev × State

/-- What the call in progress of `t` has done in a run. -/
def journal (cfg : Config) (file : File) (t : Tid) (tr : List Ev) : List Entry :=
  (machine cfg).journal t [] (State.initial file) tr

/-- A stretch of code run by `t` adds only entries `G` allows, and ends in `Q`. -/
abbrev Text (cfg : Config) (t : Tid) (G : List Entry → Ev → State → Prop) {α : Type}
    (Q : List Entry → α → Prop) (p : Code α) (l : List Entry) : Prop :=
  (machine cfg).Follows t G Q p l

variable {cfg : Config} {t : Tid} {G : List Entry → Ev → State → Prop} {α β : Type}
  {Q : List Entry → α → Prop} {l : List Entry}

/-! ## One rule per node -/

namespace Text

theorem look {f : Memory → β} {g : β → Code α}
    (h : ∀ s, G l (.read t) s ∧ Text cfg t G Q (g (f s.mem)) (l ++ [(.read t, s)])) :
    Text cfg t G Q (Prog.look f >>= g) l := fun s _ _ => h s

theorem enter {a : Section} {f : Memory → β} {g : β → Code α}
    (h : ∀ s, G l (.locked t a) s ∧ Text cfg t G Q (g (f s.mem)) (l ++ [(.locked t a, s)])) :
    Text cfg t G Q (Prog.enter a f >>= g) l := fun s _ _ => h s

theorem request {e : Request} {g : Reply e → Code α}
    (h : ∀ r s s', answer t e r s = some s' → G l (.asked t e r) s ∧
      Text cfg t G Q (g r) (l ++ [(.asked t e r, s)])) :
    Text cfg t G Q (VkSandbox.request e >>= g) l := h

theorem last_request {e : Request} {Q : List Entry → Reply e → Prop}
    (h : ∀ r s s', answer t e r s = some s' → G l (.asked t e r) s ∧
      Q (l ++ [(.asked t e r, s)]) r) :
    Text cfg t G Q (VkSandbox.request e) l := h

theorem last_look {f : Memory → α}
    (h : ∀ s, G l (.read t) s ∧ Q (l ++ [(.read t, s)]) (f s.mem)) :
    Text cfg t G Q (Prog.look f) l := fun s _ _ => h s

end Text

/-! ## The text of a save -/

/-- An event of a save. -/
def Saves : Ev → Prop
  | .read _ => True
  | .asked _ e _ =>
    match e with
    | .lockSave | .unlockSave | .mkdirAll | .writeFile _ | .rename => True
    | _ => False
  | _ => False

theorem saves_write (committing : Option Key) (l : List Entry) :
    Text cfg t (fun _ ev _ => Saves ev) (fun _ _ => True) (write cfg committing) l := by
  unfold write
  split
  · trivial
  refine Text.look fun _ => ⟨trivial, Text.request fun r _ _ _ => ⟨trivial, ?_⟩⟩
  cases r with
  | error err => trivial
  | ok u =>
    refine Text.request fun r _ _ _ => ⟨trivial, ?_⟩
    cases r with
    | error err => trivial
    | ok u =>
      refine Text.request fun r _ _ _ => ⟨trivial, ?_⟩
      cases r with
      | error err => trivial
      | ok u => trivial

theorem saves_persist (l : List Entry) :
    Text cfg t (fun _ ev _ => Saves ev) (fun _ _ => True) (persist cfg) l := by
  unfold persist
  refine Text.request fun _ _ _ _ => ⟨trivial, ?_⟩
  refine Machine.Follows.call (saves_write none _) fun l r _ => ?_
  exact Text.request fun _ _ _ _ => ⟨trivial, trivial⟩

theorem saves_saveState (l : List Entry) :
    Text cfg t (fun _ ev _ => Saves ev) (fun _ _ => True) (saveState cfg) l := by
  unfold saveState
  exact Machine.Follows.call (saves_persist l) fun _ _ _ => trivial

/-! ## Back to the run -/

/-- Which calls a thread runs. -/
theorem mayCall_of_started {op : Op} {s s' : State} (h : apply (.started t op) s = some s') :
    t = .boot ∧ op = .new ∨ mayCall t op := by
  obtain ⟨rfl, rfl, -⟩ | ⟨-, -, hm, -⟩ := apply_started h
  · exact .inl ⟨rfl, rfl⟩
  · exact .inr hm

section Runs

variable {file : File} {tr : List Ev} {ev : Ev} {K : Op → List Entry → Ev → State → Prop}
  {R : Op → List Entry → Outcome → Prop}
  {x x' : Interleave.Config State Memory Section Request Reply Tid Op Outcome}

/-- Every call a thread may run follows its text. -/
def Follows (cfg : Config) (t : Tid) (G : Op → List Entry → Ev → State → Prop)
    (R : Op → List Entry → Outcome → Prop) : Prop :=
  ∀ op s s', apply (.started t op) s = some s' → Text cfg t (G op) (R op) (code cfg op) []

/-- The call `t` is in. -/
def InCall (x : Interleave.Config State Memory Section Request Reply Tid Op Outcome) (t : Tid)
    (op : Op) : Prop := ∃ p, x.tasks t = some (op, p)

theorem Runs.locked (h : Runs cfg file tr x) (hf : Follows cfg t K R) {a : Section}
    (hs : Step (machine cfg) x (.locked t a) x') :
    ∃ op, InCall x t op ∧ K op (journal cfg file t tr) (.locked t a) x.shared := by
  obtain ⟨op, p, hp, hk⟩ := Run.follows_next h hf hs rfl
  exact ⟨op, ⟨p, hp⟩, hk⟩

theorem Runs.asked (h : Runs cfg file tr x) (hf : Follows cfg t K R) {e : Request} {r : Reply e}
    (hs : Step (machine cfg) x (.asked t e r) x') :
    ∃ op, InCall x t op ∧ K op (journal cfg file t tr) (.asked t e r) x.shared := by
  obtain ⟨op, p, hp, hk⟩ := Run.follows_next h hf hs rfl
  exact ⟨op, ⟨p, hp⟩, hk⟩

theorem Runs.read (h : Runs cfg file tr x) (hf : Follows cfg t K R)
    (hs : Step (machine cfg) x (.read t) x') :
    ∃ op, InCall x t op ∧ K op (journal cfg file t tr) (.read t) x.shared := by
  obtain ⟨op, p, hp, hk⟩ := Run.follows_next h hf hs rfl
  exact ⟨op, ⟨p, hp⟩, hk⟩

theorem Runs.finished (h : Runs cfg file tr x) (hf : Follows cfg t K R) {op : Op} {r : Outcome}
    (hs : Step (machine cfg) x (.finished t op r) x') : R op (journal cfg file t tr) r :=
  Run.follows_next h hf hs rfl

/-- A call that returns was in progress. -/
theorem InCall.of_finished {op : Op} {r : Outcome}
    (hs : Step (machine cfg) x (.finished t op r) x') :
    InCall x t op := by
  cases hs with
  | finished hp _ => exact ⟨_, hp⟩

/-- A call has just begun, or it goes on. -/
theorem InCall.back {op : Op} (hop : InCall x' t op) (hs : Step (machine cfg) x ev x') :
    ev = .started t op ∨ InCall x t op ∧ ¬ ev.Resets t := by
  obtain ⟨p, hp⟩ := hop
  have hother : ∀ {u task}, x'.tasks = Function.update x.tasks u task → t ≠ u → InCall x t op := by
    intro u task htasks hu
    rw [htasks, Function.update_of_ne hu] at hp
    exact ⟨p, hp⟩
  have hown : ∀ {task}, x'.tasks = Function.update x.tasks t task → task = some (op, p) := by
    intro task htasks
    rw [htasks, Function.update_self] at hp
    exact hp
  cases hs with
  | crashed => cases hp
  | @started u op' s hidle ha =>
    by_cases hu : t = u
    · subst hu
      cases hown rfl
      exact .inl rfl
    · exact .inr ⟨hother rfl hu, Ne.symm hu⟩
  | @finished u op' r s ht ha =>
    by_cases hu : t = u
    · subst hu
      cases hown rfl
    · exact .inr ⟨hother rfl hu, Ne.symm hu⟩
  | @read u op' k s ht ha | @locked u op' a k s ht ha | @asked u op' e k r s ht ha =>
    refine .inr ⟨?_, id⟩
    by_cases hu : t = u
    · subst hu
      cases hown rfl
      exact ⟨_, ht⟩
    · exact hother rfl hu

/-- The ledger names the call a thread is in. -/
theorem Runs.calls_inCall (h : Runs cfg file tr x) {op : Op} (hop : InCall x t op) :
    ∃ n, x.shared.ledger.calls t = some (n, op) := by
  induction h with
  | nil =>
    obtain ⟨p, hp⟩ := hop
    cases hp
  | @snoc tr x₁ ev x₂ h hs ih =>
    obtain rfl | ⟨hin, hres⟩ := hop.back hs
    · obtain ⟨rfl, rfl, -, -, he⟩ | ⟨-, -, -, -, he⟩ := apply_started (Step.apply hs) <;>
        exact ⟨x₁.shared.ledger.count, by simp [he, State.record, Ledger.boot, Ledger.begin]⟩
    · obtain hsame | ⟨op', rfl, -⟩ | ⟨-, ⟨op', r, rfl⟩ | rfl⟩ := (effect (Step.apply hs)).calls t
      · rw [hsame]
        exact ih hin
      · exact absurd rfl hres
      · exact absurd rfl hres
      · exact absurd trivial hres

/-- A call in progress has begun. -/
theorem Runs.started_inCall (h : Runs cfg file tr x) {op : Op} (hop : InCall x t op) :
    .started t op ∈ tr := by
  induction h with
  | nil =>
    obtain ⟨p, hp⟩ := hop
    cases hp
  | @snoc tr x₁ ev x₂ h hs ih =>
    obtain rfl | ⟨hin, -⟩ := hop.back hs
    · simp
    · exact List.mem_append_left _ (ih hin)

/-- **The moment an entry stands for**: the run up to it, its step, and the rest of the call. -/
theorem Runs.entry (h : Runs cfg file tr x) {l₁ l₂ : List Entry} {s : State}
    (hj : journal cfg file t tr = l₁ ++ (ev, s) :: l₂) :
    ∃ tr₁ tr₂ x₁ x₂, tr = tr₁ ++ ev :: tr₂ ∧ Runs cfg file tr₁ x₁ ∧ x₁.shared = s ∧
      journal cfg file t tr₁ = l₁ ∧ Step (machine cfg) x₁ ev x₂ ∧ Run (machine cfg) x₂ tr₂ x ∧
      ∀ ev' ∈ tr₂, ¬ ev'.Resets t := by
  obtain ⟨tr₁, tr₂, rfl, hrep, hj₁, hno, -⟩ := Machine.journal_split (Run.replay h) hj
  obtain ⟨x₁, x₂, h₁, hs, h₂⟩ := Run.split h
  exact ⟨tr₁, tr₂, x₁, x₂, rfl, h₁, Option.some.inj ((Run.replay h₁).symm.trans hrep), hj₁, hs, h₂,
    hno⟩

/-- **The moment of the last entry**: since then its thread has done nothing. -/
theorem Runs.last_entry (h : Runs cfg file tr x) {l₁ : List Entry} {s : State}
    (hj : journal cfg file t tr = l₁ ++ [(ev, s)]) :
    ∃ tr₁ tr₂ x₁ x₂, tr = tr₁ ++ ev :: tr₂ ∧ Runs cfg file tr₁ x₁ ∧ x₁.shared = s ∧
      journal cfg file t tr₁ = l₁ ∧ Step (machine cfg) x₁ ev x₂ ∧ Run (machine cfg) x₂ tr₂ x ∧
      (∀ ev' ∈ tr₂, ¬ ev'.Resets t) ∧ ∀ ev' ∈ tr₂, ev'.tid ≠ some t := by
  obtain ⟨tr₁, tr₂, rfl, hrep, hj₁, hno, hquiet⟩ := Machine.journal_split (Run.replay h) hj
  obtain ⟨x₁, x₂, h₁, hs, h₂⟩ := Run.split h
  exact ⟨tr₁, tr₂, x₁, x₂, rfl, h₁, Option.some.inj ((Run.replay h₁).symm.trans hrep), hj₁, hs, h₂,
    hno, hquiet rfl⟩

/-- Where a thread does nothing its journal stays, or it is gone. -/
theorem Runs.journal_quiet {tr' : List Ev} (h : Runs cfg file tr x)
    (h' : Run (machine cfg) x tr' x') (hquiet : ∀ ev ∈ tr', ev.tid ≠ some t)
    (hne : journal cfg file t (tr ++ tr') ≠ []) :
    journal cfg file t (tr ++ tr') = journal cfg file t tr ∧ ∀ ev ∈ tr', ¬ ev.Resets t := by
  induction h' with
  | nil => exact ⟨by rw [List.append_nil], fun ev hev => by cases hev⟩
  | @snoc tr₁ x₁ ev x₂ h₁ hs ih =>
    have hj : journal cfg file t (tr ++ tr₁ ++ [ev]) = _ := Run.journal_snoc (Run.append h h₁) hs []
    rw [← List.append_assoc, hj] at hne ⊢
    have hres : ¬ ev.Resets t := fun hr => hne (note_of_resets hr _ _)
    rw [note_of_ne (hquiet ev (by simp)) hres] at hne ⊢
    obtain ⟨hj₁, hno⟩ := ih (fun ev hev => hquiet ev (List.mem_append_left _ hev)) hne
    refine ⟨hj₁, fun ev' hev => ?_⟩
    rcases List.mem_append.mp hev with hev | hev
    · exact hno ev' hev
    · rw [List.mem_singleton.mp hev]
      exact hres

/-- An entry belongs to a call in progress. -/
theorem Runs.inCall (h : Runs cfg file tr x) {e : Entry} (he : e ∈ journal cfg file t tr) :
    ∃ op, InCall x t op := by
  cases hp : x.tasks t with
  | none =>
    have hnone : journal cfg file t tr = [] := Run.journal_idle h hp
    rw [hnone] at he
    cases he
  | some task => exact ⟨task.1, task.2, hp⟩

/-- **What the text allows of the next event, it has allowed of every entry.** -/
theorem Runs.entry_text (h : Runs cfg file tr x) (hf : Follows cfg t K R) {op : Op}
    (hop : InCall x t op) {l₁ l₂ : List Entry} {s : State}
    (hj : journal cfg file t tr = l₁ ++ (ev, s) :: l₂) : K op l₁ ev s := by
  have hmem : (ev, s) ∈ journal cfg file t tr := by rw [hj]; simp
  obtain ⟨htid, hres⟩ := Machine.journal_tid (fun e he => by cases he) _ hmem
  obtain ⟨tr₁, tr₂, x₁, x₂, rfl, h₁, rfl, rfl, hs, hrest, hno⟩ := h.entry hj
  -- the call it was made in is still the one in progress
  have hsame : ∀ {op'}, InCall x₁ t op' → op' = op := by
    rintro op' ⟨p, hp⟩
    have hall : Run (machine cfg) x₁ (ev :: tr₂) x := Run.append (Run.nil.snoc hs) hrest
    obtain ⟨p', hp'⟩ := hall.tasks_op (fun ev' hev => by
      rcases List.mem_cons.mp hev with rfl | hev
      · exact hres
      · exact hno ev' hev) hp
    obtain ⟨q, hq⟩ := hop
    cases hp'.symm.trans hq
    rfl
  have hnext : ∀ {ev₀}, (∃ op', InCall x₁ t op' ∧ K op' (journal cfg file t tr₁) ev₀ x₁.shared) →
      K op (journal cfg file t tr₁) ev₀ x₁.shared := by
    rintro ev₀ ⟨op', hin, hk⟩
    rw [hsame hin] at hk
    exact hk
  cases ev with
  | read u => cases htid; exact hnext (h₁.read hf hs)
  | locked u a => cases htid; exact hnext (h₁.locked hf hs)
  | asked u e r => cases htid; exact hnext (h₁.asked hf hs)
  | started u op | finished u op r => cases htid; exact absurd rfl hres
  | crashed => cases htid

/-- The state an entry found satisfies the invariant, and its event met its guard. -/
theorem Runs.entry_guard (h : Runs cfg file tr x) {s : State}
    (hj : (ev, s) ∈ journal cfg file t tr) :
    Inv cfg s ∧ Guard cfg ev s ∧ ∃ s', apply ev s = some s' := by
  obtain ⟨l₁, l₂, hj⟩ := List.append_of_mem hj
  obtain ⟨tr₁, tr₂, x₁, x₂, rfl, h₁, rfl, -, hs, -⟩ := h.entry hj
  exact ⟨h₁.inv, (h₁.next hs).1, _, (h₁.next hs).2⟩

/-- **Within one process everything evolves.** -/
theorem Runs.evolves {tr' : List Ev} (h : Runs cfg file tr x) (h' : Run (machine cfg) x tr' x')
    (hup : x.shared.phase = .up) (hno : ∀ ev ∈ tr', ev ≠ .crashed) :
    Evolves x.shared x'.shared := by
  induction h' with
  | nil => exact .refl _
  | @snoc tr₁ x₁ ev x₂ h₁ hs ih =>
    have he := ih fun ev hev => hno ev (List.mem_append_left _ hev)
    have hrun : Runs cfg file (tr ++ tr₁) x₁ := Run.append h h₁
    obtain ⟨hg, ha⟩ := hrun.next hs
    cases hu : ev.tid with
    | none =>
      cases ev with
      | crashed => exact absurd rfl (hno _ (by simp))
      | _ => cases hu
    | some u =>
      obtain ⟨-, hp⟩ | ⟨hb, -⟩ := hg.up_or_booting ha hu
      · exact absurd (he.phase.trans hup) hp
      · exact he.trans (.of_event hrun.inv hg (hg.steady hu hb) ha)

/-- The past stays, over whole runs. -/
theorem memAt_run {n : ℕ} {m : Memory} (h : Run (machine cfg) x tr x')
    (hm : x.shared.memAt n = some m) : x'.shared.memAt n = some m := by
  induction h with
  | nil => exact hm
  | snoc _ hs ih => exact (effect (Step.apply hs)).memAt ih

/-- What comes after an entry is still the same process. -/
theorem not_crashed_of_resets {tr' : List Ev} (h : ∀ ev ∈ tr', ¬ ev.Resets t) :
    ∀ ev ∈ tr', ev ≠ (.crashed : Ev) := by
  rintro ev hev rfl
  exact h _ hev trivial

/-- An entry is an event of its thread, in a process that serves it. -/
theorem Runs.entry_live (h : Runs cfg file tr x) {s : State}
    (hj : (ev, s) ∈ journal cfg file t tr) : s.Live t := by
  obtain ⟨ht, hr⟩ := Machine.journal_tid (fun e he => by cases he) _ hj
  refine (h.entry_guard hj).2.1.live ht ?_
  rintro op rfl
  exact hr rfl

/-- From an entry of a journal on it is one process. -/
theorem Runs.entry_evolves (h : Runs cfg file tr x) (ht : t ≠ .boot) {s : State}
    (hj : (ev, s) ∈ journal cfg file t tr) : Evolves s x.shared := by
  have hup : s.phase = .up := (h.entry_live hj).eq_up ht
  obtain ⟨htid, -⟩ := Machine.journal_tid (fun e he => by cases he) _ hj
  obtain ⟨l₁, l₂, hj⟩ := List.append_of_mem hj
  obtain ⟨tr₁, tr₂, x₁, x₂, rfl, h₁, rfl, -, hs, hrest, hno⟩ := h.entry hj
  have htail : Run (machine cfg) x₁ (ev :: tr₂) x := Run.append (Run.nil.snoc hs) hrest
  refine h₁.evolves htail hup fun ev' hev => ?_
  rcases List.mem_cons.mp hev with rfl | hev
  · rintro rfl
    cases htid
  · exact not_crashed_of_resets hno ev' hev

/-- A thread with a call under way is served: its process is up. -/
theorem Runs.up_of_journal (h : Runs cfg file tr x) (ht : t ≠ .boot)
    (hj : journal cfg file t tr ≠ []) : x.shared.phase = .up := by
  obtain ⟨⟨ev₀, s₀⟩, l, hl⟩ := List.exists_cons_of_ne_nil hj
  have hmem : (ev₀, s₀) ∈ journal cfg file t tr := by rw [hl]; simp
  exact (h.entry_evolves ht hmem).phase.trans ((h.entry_live hmem).eq_up ht)

/-- **While `New` runs, nothing else does.** -/
theorem Runs.booting_alone {tr' : List Ev} (h : Runs cfg file tr x) (hb : x.shared.phase = .booting)
    (h' : Run (machine cfg) x tr' x') (hno : ∀ ev ∈ tr', ¬ ev.Resets .boot) :
    x'.shared.phase = .booting ∧ ∀ ev ∈ tr', ev.tid = some .boot := by
  induction h' with
  | nil => exact ⟨hb, List.forall_mem_nil _⟩
  | @snoc tr₁ x₁ ev x₂ h₁ hs ih =>
    obtain ⟨hb₁, hall⟩ := ih fun ev hev => hno ev (List.mem_append_left _ hev)
    have hlast : ¬ ev.Resets .boot := hno ev (by simp)
    obtain ⟨hg, ha⟩ := Runs.next (Run.append h h₁ : Runs cfg file (tr ++ tr₁) x₁) hs
    have htid : ev.tid = some .boot := by
      cases hev : ev.tid with
      | none =>
        cases ev with
        | crashed => exact absurd trivial hlast
        | _ => cases hev
      | some t =>
        obtain ⟨rfl, -⟩ | ⟨-, hup⟩ := hg.up_or_booting ha hev
        · rfl
        · rw [hb₁] at hup
          cases hup
    refine ⟨?_, fun ev' hev' => ?_⟩
    · obtain hph | ⟨rfl, -⟩ | ⟨op, rfl, -⟩ | ⟨hend, -⟩ := (effect ha).phase
      · rw [hph, hb₁]
      · exact absurd rfl hlast
      · exact absurd rfl hlast
      · cases ev with
        | crashed => exact absurd trivial hlast
        | finished t op r =>
          cases htid
          exact absurd rfl hlast
        | _ => cases hend
    · rcases List.mem_append.mp hev' with hev' | hev'
      · exact hall ev' hev'
      · obtain rfl := List.mem_singleton.mp hev'
        exact htid

/-- A `New` under way is alone: its process is booting. -/
theorem Runs.booting_of_journal (h : Runs cfg file tr x) (hj : journal cfg file .boot tr ≠ []) :
    x.shared.phase = .booting := by
  obtain ⟨⟨ev₀, s₀⟩, l, hl⟩ := List.exists_cons_of_ne_nil hj
  have hmem : (ev₀, s₀) ∈ journal cfg file .boot tr := by rw [hl]; simp
  have hb : s₀.phase = .booting := h.entry_live hmem
  obtain ⟨-, hres⟩ := Machine.journal_tid (fun e he => by cases he) _ hmem
  have hj₀ : journal cfg file .boot tr = [] ++ (ev₀, s₀) :: l := hl
  obtain ⟨tr₁, tr₂, x₁, x₂, rfl, h₁, rfl, -, hs, hrest, hno⟩ := h.entry hj₀
  have htail : Run (machine cfg) x₁ (ev₀ :: tr₂) x := Run.append (Run.nil.snoc hs) hrest
  refine (h₁.booting_alone hb htail fun ev hev => ?_).1
  rcases List.mem_cons.mp hev with rfl | hev
  · exact hres
  · exact hno ev hev

/-- From one entry of a journal to the next it is one process. -/
theorem Runs.entries_evolve (h : Runs cfg file tr x) (ht : t ≠ .boot) {l₁ l₂ l₃ : List Entry}
    {ev₁ ev₂ : Ev} {s₁ s₂ : State}
    (hj : journal cfg file t tr = l₁ ++ (ev₁, s₁) :: l₂ ++ (ev₂, s₂) :: l₃) : Evolves s₁ s₂ := by
  obtain ⟨tr₂, -, x₂, -, -, h₂, rfl, hj₂, -⟩ := h.entry hj
  have hmem : (ev₁, s₁) ∈ journal cfg file t tr₂ := by
    rw [hj₂]
    simp
  exact h₂.entry_evolves ht hmem

/-! ## One call -/

/-- **`y` is in the call `op` of `t` that began in `x`**, `tr'` after its beginning. -/
structure CallFrom (cfg : Config) (file : File) (tr : List Ev)
    (x : Interleave.Config State Memory Section Request Reply Tid Op Outcome) (t : Tid) (op : Op)
    (tr' : List Ev) (y : Interleave.Config State Memory Section Request Reply Tid Op Outcome) :
    Prop where
  before : Runs cfg file tr x
  begun : ∃ x₀, Step (machine cfg) x (.started t op) x₀ ∧ Run (machine cfg) x₀ tr' y
  whole : ∀ ev ∈ tr', ¬ ev.Resets t

namespace CallFrom

variable {op : Op} {tr' : List Ev}
  {y y' : Interleave.Config State Memory Section Request Reply Tid Op Outcome}

theorem run (h : CallFrom cfg file tr x t op tr' y) :
    Runs cfg file (tr ++ .started t op :: tr') y := by
  obtain ⟨x₀, hs, h'⟩ := h.begun
  exact Run.append h.before (Run.append (Run.nil.snoc hs) h')

/-- **Induction over a call**: its beginning, its own events, and those of the others. -/
theorem induct
    {P : List Ev → Interleave.Config State Memory Section Request Reply Tid Op Outcome → Prop}
    (h : CallFrom cfg file tr x t op tr' y)
    (nil : ∀ {x₀}, Step (machine cfg) x (.started t op) x₀ → P [] x₀)
    (snoc : ∀ {w x₁ ev x₂}, CallFrom cfg file tr x t op w x₁ → Step (machine cfg) x₁ ev x₂ →
      ¬ ev.Resets t → P w x₁ → P (w ++ [ev]) x₂) : P tr' y := by
  obtain ⟨x₀, hs, h'⟩ := h.begun
  have hwhole := h.whole
  have hbefore := h.before
  clear h
  induction h' with
  | nil => exact nil hs
  | @snoc w x₁ ev x₂ h₁ hs₁ ih =>
    have hw : ∀ ev ∈ w, ¬ ev.Resets t := fun ev hev => hwhole ev (List.mem_append_left _ hev)
    exact snoc ⟨hbefore, ⟨x₀, hs, h₁⟩, hw⟩ hs₁ (hwhole ev (by simp)) (ih hw)

theorem inCall (h : CallFrom cfg file tr x t op tr' y) : InCall y t op := by
  obtain ⟨x₀, hs, h'⟩ := h.begun
  cases hs with
  | started hn ha => exact h'.tasks_op h.whole (Function.update_self _ _ _)

/-- The journal of a call begins empty. -/
theorem journal_nil (h : Runs cfg file tr x) (hs : Step (machine cfg) x (.started t op) x') :
    journal cfg file t (tr ++ [.started t op]) = [] := by
  have hj : journal cfg file t (tr ++ [.started t op]) = _ := Run.journal_snoc h hs []
  have hres : (.started t op : Ev).Resets t := rfl
  rw [hj]
  exact note_of_resets hres _ _

theorem journal_snoc (h : CallFrom cfg file tr x t op tr' y) (hs : Step (machine cfg) y ev y')
    (hev : ¬ ev.Resets t) : journal cfg file t (tr ++ .started t op :: (tr' ++ [ev]))
      = if ev.tid = some t then journal cfg file t (tr ++ .started t op :: tr') ++ [(ev, y.shared)]
        else journal cfg file t (tr ++ .started t op :: tr') := by
  have hj : journal cfg file t (tr ++ .started t op :: tr' ++ [ev]) = _ :=
    Run.journal_snoc h.run hs []
  rw [← List.cons_append, ← List.append_assoc, hj]
  split
  · next htid => exact note_of_tid htid hev _ _
  · next htid => exact note_of_ne htid hev _ _

/-- **The moment of an entry** is a moment of the call. -/
theorem entry (h : CallFrom cfg file tr x t op tr' y) {l₁ l₂ : List Entry} {s : State}
    (hj : journal cfg file t (tr ++ .started t op :: tr') = l₁ ++ (ev, s) :: l₂) :
    ∃ w x₁ x₂, CallFrom cfg file tr x t op w x₁ ∧ x₁.shared = s ∧
      journal cfg file t (tr ++ .started t op :: w) = l₁ ∧ Step (machine cfg) x₁ ev x₂ := by
  refine h.induct (P := fun w _ => ∀ l₂, journal cfg file t (tr ++ .started t op :: w)
    = l₁ ++ (ev, s) :: l₂ → _) ?_ ?_ l₂ hj
  · intro x₀ hs l₂ hj
    rw [journal_nil h.before hs] at hj
    simp at hj
  · intro w x₁ ev₁ x₂ hw hs hev ih l₂ hj
    rw [hw.journal_snoc hs hev] at hj
    split at hj
    · obtain rfl | ⟨l₃, last, rfl⟩ := List.eq_nil_or_concat l₂
      · obtain ⟨hl, he⟩ := List.append_inj' hj rfl
        cases he
        exact ⟨w, x₁, x₂, hw, rfl, hl, hs⟩
      · rw [List.concat_eq_append, ← List.cons_append, ← List.append_assoc] at hj
        exact ih l₃ (List.append_inj' hj rfl).1
    · exact ih l₂ hj

theorem up_before (h : CallFrom cfg file tr x t op tr' y) (ht : t ≠ .boot) :
    x.shared.phase = .up := by
  obtain ⟨x₀, hs, -⟩ := h.begun
  have ha : apply (.started t op) x.shared = some x₀.shared := Step.apply hs
  obtain ⟨hb, -⟩ | ⟨-, hup, -⟩ := apply_started ha
  · exact absurd hb ht
  · exact hup

/-- **A call is served by one process.** -/
theorem evolves (h : CallFrom cfg file tr x t op tr' y) (ht : t ≠ .boot) :
    Evolves x.shared y.shared := by
  have hup := h.up_before ht
  obtain ⟨x₀, hs, h'⟩ := h.begun
  have hall : Run (machine cfg) x (.started t op :: tr') y := Run.append (Run.nil.snoc hs) h'
  refine h.before.evolves hall hup fun ev hev => ?_
  rcases List.mem_cons.mp hev with rfl | hev
  · intro he
    cases he
  · exact not_crashed_of_resets h.whole ev hev

theorem up (h : CallFrom cfg file tr x t op tr' y) (ht : t ≠ .boot) : y.shared.phase = .up :=
  (h.evolves ht).phase.trans (h.up_before ht)

/-- **What the others do meanwhile.** -/
theorem calm (h : CallFrom cfg file tr x t op tr' y) (ht : t ≠ .boot)
    (hs : Step (machine cfg) y ev y') (hev : ¬ ev.Resets t) (htid : ev.tid ≠ some t) :
    Calm t y.shared y'.shared := by
  obtain ⟨hg, ha⟩ := h.run.next hs
  cases hu : ev.tid with
  | none =>
    cases ev with
    | crashed => exact absurd trivial hev
    | _ => cases hu
  | some u =>
    have hlive : y.shared.Live t := by
      cases t with
      | boot => exact absurd rfl ht
      | _ => exact h.up ht
    exact Rely.of_event h.run.inv hg ha hu (fun he => htid (he ▸ hu)) hlive

end CallFrom

/-! ## Conditions on whole histories -/

/-- **Every event of a trace meets a condition** on what came before it and the state it finds. -/
def Throughout (cfg : Config) (file : File) (P : List Ev → State → Ev → Prop) (tr : List Ev) :
    Prop :=
  ∀ tr₁ ev tr₂ x₁, tr = tr₁ ++ ev :: tr₂ → Runs cfg file tr₁ x₁ → P tr₁ x₁.shared ev

theorem Throughout.left {P : List Ev → State → Ev → Prop} {tr' : List Ev}
    (h : Throughout cfg file P (tr ++ tr')) : Throughout cfg file P tr := by
  rintro tr₁ ev tr₂ x₁ rfl h₁
  exact h tr₁ ev (tr₂ ++ tr') x₁ (by simp) h₁

theorem Throughout.imp {P Q : List Ev → State → Ev → Prop} (h : Throughout cfg file P tr)
    (hPQ : ∀ {tr s ev}, P tr s ev → Q tr s ev) : Throughout cfg file Q tr :=
  fun tr₁ ev tr₂ x₁ he h₁ => hPQ (h tr₁ ev tr₂ x₁ he h₁)

/-- A condition on single states is one on histories. -/
theorem Throughout.of_along {C : Ev → State → Prop}
    (h : (machine cfg).Along C (State.initial file) tr) :
    Throughout cfg file (fun _ s ev => C ev s) tr := by
  rintro tr₁ ev tr₂ x₁ rfl h₁
  exact (h.right (Run.replay h₁)).head

/-- **The invariant rule for a call in progress**: what each of its own events establishes, and the
events of the others keep, holds of its journal. -/
theorem Runs.induct_journal (h : Runs cfg file tr x) (ht : t ≠ .boot)
    {C : List Ev → State → Ev → Prop} (hC : Throughout cfg file C tr)
    {J : List Entry → State → Prop} (hnil : ∀ s, J [] s)
    (hown : ∀ {tr x ev x'}, Runs cfg file tr x → Step (machine cfg) x ev x' → C tr x.shared ev →
      x.shared.phase = .up → ev.tid = some t → J (journal cfg file t tr) x.shared →
      J (journal cfg file t tr ++ [(ev, x.shared)]) x'.shared)
    (hother : ∀ {tr x ev x'}, Runs cfg file tr x → Step (machine cfg) x ev x' → C tr x.shared ev →
      x.shared.phase = .up → journal cfg file t tr ≠ [] → ev.tid ≠ some t →
      J (journal cfg file t tr) x.shared → J (journal cfg file t tr) x'.shared) :
    J (journal cfg file t tr) x.shared := by
  induction h with
  | nil => exact hnil _
  | @snoc tr x ev x' h hs ih =>
    have hJ := ih hC.left
    have hrun : Runs cfg file tr x := h
    have hc : C tr x.shared ev := hC tr ev [] x rfl h
    have hj : journal cfg file t (tr ++ [ev]) = _ := Run.journal_snoc h hs []
    rw [hj]
    by_cases hres : ev.Resets t
    · rw [note_of_resets hres]
      exact hnil _
    by_cases htid : ev.tid = some t
    · rw [note_of_tid htid hres]
      obtain ⟨hb, -⟩ | ⟨-, hup⟩ := (hrun.next hs).1.up_or_booting (hrun.next hs).2 htid
      · exact absurd hb ht
      · exact hown h hs hc hup htid hJ
    · rw [note_of_ne htid hres]
      by_cases hne : journal cfg file t tr = []
      · change J (journal cfg file t tr) x'.shared
        rw [hne]
        exact hnil _
      · exact hother h hs hc (hrun.up_of_journal ht hne) hne htid hJ

/-- A trace checked event by event. -/
def checkThroughout (cfg : Config) (file : File) (P : List Ev → State → Ev → Prop)
    [∀ tr s ev, Decidable (P tr s ev)] (tr : List Ev) : Bool :=
  tr.zipIdx.all fun e => ((machine cfg).replay (State.initial file) (tr.take e.2)).all
    fun s => decide (P (tr.take e.2) s e.1)

theorem Throughout.of_check {P : List Ev → State → Ev → Prop} [∀ tr s ev, Decidable (P tr s ev)]
    (h : checkThroughout cfg file P tr = true) : Throughout cfg file P tr := by
  rintro tr₁ ev tr₂ x₁ rfl h₁
  have hmem : (ev, tr₁.length) ∈ (tr₁ ++ ev :: tr₂).zipIdx := by
    rw [List.mk_mem_zipIdx_iff_getElem?]
    simp
  have hev := List.all_eq_true.mp h _ hmem
  rw [List.take_left, (Run.replay h₁ : _ = some x₁.shared), Option.all_some] at hev
  exact of_decide_eq_true hev

end Runs

end VkSandbox
