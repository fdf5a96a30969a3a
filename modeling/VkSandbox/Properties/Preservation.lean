import VkSandbox.Provider.Entries
import VkSandbox.Properties.Bindings
import VkSandbox.Properties.Durability
import VkSandbox.Properties.StateWrites

/-!
# Properties/Preservation — what becomes of a claim a `DeletePod` keeps

    preserveClaim ── saveState ── DeletePod returns ── … ── crash ── New ── … ── recheckOwners
         n            rename of a version ≥ n                 load             counts the claim

A preserved claim has an owner, no Pod, and is not tentative: it is `Parked`.  Every version of the
tables from the preserving section on shows it so (`ParkedFrom`), and since the file is a version no
older than that, a restart finds it so again.
-/

namespace VkSandbox

open Interleave Interleave.Prog

variable {cfg : Config} {s s' s₀ : State} {t : Tid} {a : Section} {k : Key} {c : Claim}
  {id : String} {ev : Ev} {n : ℕ} {m₀ : Memory}

/-! ## Parked claims -/

/-- The claim `id`, where it is the row of `k`, waits for its owner: no Pod, and durable. -/
def Memory.Parked (m : Memory) (k : Key) (id : String) : Prop :=
  ∀ c, m.claims.lookup k = some c → c.id = id →
    c.owner.isSome ∧ m.pods.lookup k = none ∧ k ∉ m.tentative

/-- **What could take the claim `id` of `k` out of its place**: an adoption, an `UpdatePod` that
brings a Pod where there is none, a load of a file that says otherwise. -/
structure LeavesParked (k : Key) (id : String) (ev : Ev) (s : State) : Prop where
  adopt : ∀ {t pod c}, ev = .locked t (.adoptExistingClaim k pod) → s.mem.adopted k pod = some c →
    c.id ≠ id
  update : ∀ {t pod c}, ev = .locked t (.updatePod k pod) → s.mem.pods.lookup k = none →
    s.row k = some c → c.owner = none
  load : ∀ {t st now c}, ev = .locked t (.load st now) → s.content.claims.lookup k = some c →
    c.id = id → c.owner.isSome

namespace Memory.Parked

theorem empty (k : Key) (id : String) : ({} : Memory).Parked k id := by
  intro c hc
  simp at hc

/-- A section that keeps the row keeps it without a Pod. -/
theorem podless (h : s.mem.Parked k id) (hg : SectionGuard cfg s t a)
    (hl : LeavesParked k id (.locked t a) s) (hc : s.row k = some c) (hid : c.id = id) :
    (a.run s.mem).pods.lookup k = none := by
  obtain ⟨howner, hpod, -⟩ := h c hc hid
  by_contra hsome
  obtain ⟨p, hp⟩ := Option.ne_none_iff_exists'.mp hsome
  obtain hp₀ | rfl | rfl | ⟨pod, c', rfl, -⟩ := Section.pods_back hp
  · cases hpod.symm.trans hp₀
  · have hadopt : s.mem.adopted k p = none := by
      by_contra hne
      obtain ⟨c', hc'⟩ := Option.ne_none_iff_exists'.mp hne
      obtain ⟨c₀, h₀, -, -, -, rfl⟩ := Memory.adopted_eq_some hc'
      obtain rfl : c = c₀ := Option.some.inj (hc.symm.trans h₀)
      exact hl.adopt rfl hc' hid
    simp only [Section.run] at hp
    obtain ⟨-, he, -⟩ | ⟨-, he, -⟩ | ⟨_, -, -, -, he, -⟩ | ⟨_, -, -, -, -, he⟩ :=
      Memory.adoptExistingClaim_cases k p s.mem
    · rw [he, hpod] at hp; cases hp
    · rw [he, hpod] at hp; cases hp
    · rw [he, hpod] at hp; cases hp
    · rw [he] at hadopt; cases hadopt
  · rw [hl.update rfl hpod hc] at howner
    cases howner
  · cases hc.symm.trans hg.2.2.2.1

/-- The owner of a row is recorded for good. -/
theorem owner (h : s.mem.Parked k id) (hg : SectionGuard cfg s t a)
    (hl : LeavesParked k id (.locked t a) s) (hc : s.row k = some c) (hid : c.id = id) {c' : Claim}
    (hedit : a.Edits s.mem k c c') : c'.owner.isSome := by
  cases hedit with
  | deadline d => exact (h c hc hid).1
  | @rebind pod ha hset had =>
    subst ha
    have hadopt : s.mem.adopted k pod = some (c.rebind pod) := by
      rw [State.row] at hc
      simp [Memory.adopted, hc, hset, had]
    have hne := hl.adopt rfl hadopt
    exact absurd hid hne
  | preserve ha =>
    subst ha
    obtain ⟨-, pod, -, -, -, howner, -⟩ := hg
    exact howner

/-- **A section leaves a parked claim parked.** -/
theorem run (h : s.mem.Parked k id) (hi : Inv cfg s) (hg : SectionGuard cfg s t a)
    (hl : LeavesParked k id (.locked t a) s) (hm : s.Seen m₀) (hc₀ : m₀.claims.lookup k = some c)
    (hid₀ : c.id = id) : (a.run s.mem).Parked k id := by
  intro c' hc' hid
  obtain ⟨c₁, h₁, hedit⟩ | hcr := Section.row_edit hc'
  · have hid₁ : c₁.id = id := hedit.same.id.symm.trans hid
    refine ⟨h.owner hg hl h₁ hid₁ hedit, h.podless hg hl h₁ hid₁, fun ht => ?_⟩
    obtain ht | ⟨pod, c₂, rfl⟩ := Section.tentative_back ht
    · exact (h c₁ h₁ hid₁).2.2 ht
    · cases h₁.symm.trans hg.2.2.2.1
  · cases a with
    | load st now =>
      obtain ⟨-, hmem, hfile, -⟩ := hg
      obtain ⟨c₁, at₁, h₁, rfl⟩ := Memory.row_load (m := s.mem) hc'
      have hcontent : s.content.claims.lookup k = some c₁ := by rw [State.content, hfile]; exact h₁
      have howner := hl.load rfl hcontent hid
      refine ⟨howner, ?_, ?_⟩
      · simp [Section.run, Memory.load, hmem]
      · simp [Section.run, Memory.load, hmem]
    | insertClaim key pod c₁ =>
      obtain ⟨rfl, rfl⟩ := hcr
      obtain ⟨-, -, -, -, res, now, hres, rfl, -⟩ := hg
      obtain ⟨-, -, -, -, hunseen⟩ := hi.hand hres
      exact absurd (hid₀.trans hid.symm) (hunseen.2 hm (Memory.holds_row hc₀))
    | _ => exact hcr.elim

end Memory.Parked

/-- **From the instant `n` on every version has the claim `id` of `k` parked.** -/
structure ParkedFrom (s : State) (k : Key) (id : String) (n : ℕ) : Prop where
  le : n ≤ s.instant
  versions : ∀ {i m}, n ≤ i → s.memAt i = some m → m.Parked k id

namespace ParkedFrom

theorem now (h : ParkedFrom s k id n) : s.mem.Parked k id := h.versions h.le s.memAt_instant

/-- **One event.** -/
theorem step (h : ParkedFrom s k id n) (hi : Inv cfg s) (hg : Guard cfg ev s)
    (hs : apply ev s = some s') (hl : LeavesParked k id ev s) (hm : s.Seen m₀)
    (hc₀ : m₀.claims.lookup k = some c) (hid₀ : c.id = id) : ParkedFrom s' k id n where
  le := h.le.trans (effect hs).instant_le
  versions := fun {i m} hle hmi => by
    obtain hmi | ⟨t, a, rfl, rfl⟩ | ⟨-, rfl⟩ := (effect hs).memAt_back hmi
    · exact h.versions hle hmi
    · exact h.now.run hi hg.2 hl hm hc₀ hid₀
    · exact .empty k id

/-- The file, once it is a version no older than `n`, records the owner. -/
theorem file (h : ParkedFrom s k id n) {found : File} (hp : Projected found s) {i : ℕ}
    (hi : s.disk.instant = some i) (hle : n ≤ i) (hc : s.content.claims.lookup k = some c)
    (hid : c.id = id) : c.owner.isSome := by
  obtain ⟨m, c₀, hm, h₀, rfl⟩ := hp.row hi hc
  exact (h.versions hle hm c₀ h₀ hid).1

/-- The preserving section parks the claim. -/
theorem begin {owner : Option OwnerReference}
    (hg : Guard cfg (.locked t (.preserveClaim k id owner)) s) (ht : k ∉ s.mem.tentative) :
    ParkedFrom (s.entered (.preserveClaim k id owner)) k id (s.instant + 1) where
  le := le_rfl
  versions := fun {i m} hle hm => by
    have he := effect (show apply (.locked t (.preserveClaim k id owner)) s = _ from rfl)
    obtain hm | ⟨-, rfl⟩ := he.memAt_cases hm
    · exact absurd (State.memAt_le hm) (by omega)
    intro c' hc' hid
    obtain ⟨c₀, h₀, rfl⟩ := Memory.row_preserveClaim.mp hc'
    obtain ⟨-, -, pod, -, -, -, howner, -, hrow, -⟩ := hg
    refine ⟨?_, Finmap.lookup_erase _ _, ht⟩
    rw [if_pos ⟨rfl, hrow c₀ h₀⟩]
    exact howner

end ParkedFrom

/-! ## The text of `DeletePod` -/

/-- The call has entered no section. -/
def NoSections (l : List Entry) : Prop := ∀ e ∈ l, ∀ u a, e.1 ≠ .locked u a

/-- A call enters its own sections, a `DeletePod` only one. -/
def DeleteText (op : Op) (l : List Entry) (ev : Ev) (_ : State) : Prop :=
  ∀ u a, ev = .locked u a → op.MayEnter a ∧ ∀ pod, op = .deletePod pod → NoSections l

theorem NoSections.snoc {l : List Entry} (h : NoSections l) (hev : ∀ u a, ev ≠ .locked u a) :
    NoSections (l ++ [(ev, s)]) := by
  intro e he
  rcases List.mem_append.mp he with he | he
  · exact h e he
  · rw [List.mem_singleton.mp he]
    exact hev

theorem NoSections.read {l : List Entry} (h : NoSections l) : NoSections (l ++ [(.read t, s)]) :=
  h.snoc fun _ _ he => by cases he

theorem NoSections.asked {l : List Entry} (h : NoSections l) {e : Request} {r : Reply e} :
    NoSections (l ++ [(.asked t e r, s)]) :=
  h.snoc fun _ _ he => by cases he

/-- The section is the first. -/
def SoleSection (l : List Entry) (ev : Ev) (_ : State) : Prop :=
  ∀ u a, ev = .locked u a → NoSections l

theorem soleSection_read {l : List Entry} : SoleSection l (.read t) s := fun _ _ he => by cases he

theorem soleSection_asked {l : List Entry} {e : Request} {r : Reply e} :
    SoleSection l (.asked t e r) s := fun _ _ he => by cases he

theorem Saves.not_locked (h : Saves ev) (u : Tid) (a : Section) : ev ≠ .locked u a := by
  rintro rfl
  exact h

theorem sole_saveState (l : List Entry) :
    Text cfg t SoleSection (fun _ _ => True) (saveState cfg) l :=
  (saves_saveState l).imp (fun _ _ _ h u a he => absurd he (h.not_locked u a)) fun _ _ h => h

theorem sole_destroyAuthorized {l : List Entry} (h : NoSections l) (key : Key) (ns : String)
    (owner : Option OwnerReference) :
    Text cfg t SoleSection (fun l _ => NoSections l) (destroyAuthorized cfg key ns owner) l := by
  cases owner with
  | none => exact h
  | some ref =>
    simp only [destroyAuthorized]
    split
    · exact h
    split
    · exact h
    · exact Text.request fun r s s' _ => ⟨soleSection_asked, h.asked⟩

theorem sole_deletePod (cfg : Config) (t : Tid) (pod : Pod) :
    Text cfg t SoleSection (fun _ _ => True) (deletePod cfg pod) [] := by
  have hnil : NoSections [] := List.forall_mem_nil _
  refine Text.look fun s₁ => ⟨soleSection_read, ?_⟩
  split
  · trivial
  refine Text.look fun s₂ => ⟨soleSection_read, ?_⟩
  split
  · exact Text.enter fun s => ⟨fun _ _ _ => hnil.read.read, trivial⟩
  refine Machine.Follows.call (sole_destroyAuthorized hnil.read.read _ _ _) fun l v hl => ?_
  split
  · refine Text.enter fun s => ⟨fun _ _ _ => hl, ?_⟩
    exact Machine.Follows.call (sole_saveState _) fun _ _ _ => trivial
  · refine Text.request fun _ s₃ _ _ => ⟨soleSection_asked, ?_⟩
    refine Text.request fun r s₄ _ _ => ⟨soleSection_asked, ?_⟩
    cases r with
    | error err => trivial
    | ok u =>
      refine Text.enter fun s => ⟨fun _ _ _ => hl.asked.asked, ?_⟩
      exact Machine.Follows.call (sole_saveState _) fun _ _ _ => trivial

theorem follows_delete (cfg : Config) (t : Tid) : Follows cfg t DeleteText (fun _ _ _ => True) := by
  intro op _ _ _
  have henters : Text cfg t (fun _ ev _ => ∀ u a, ev = .locked u a → op.MayEnter a)
      (fun _ _ => True) (code cfg op) [] :=
    Machine.Follows.of_enters (enters_code op) fun _ _ _ h => h
  cases op with
  | deletePod pod =>
    have hsole : Text cfg t SoleSection (fun _ _ => True) (code cfg (.deletePod pod)) [] :=
      Machine.Follows.map (sole_deletePod cfg t pod)
    refine (henters.and hsole).imp ?_ fun _ _ _ => trivial
    exact fun l ev s h u a he => ⟨h.1 u a he, fun _ _ => h.2 u a he⟩
  | _ => exact henters.imp (fun _ _ _ h u a he => ⟨h u a he, nofun⟩) fun _ _ _ => trivial

/-! ## While the delete is under way -/

section Results

variable {file : File} {tr : List Ev}
  {x x' : Interleave.Config State Memory Section Request Reply Tid Op Outcome}

/-- After the preserving section the call enters no other. -/
theorem Runs.preserved_last (h : Runs cfg file tr x) {l₁ l₂ : List Entry}
    {owner : Option OwnerReference} {s₁ : State} {b : Section}
    (hj : journal cfg file t tr = l₁ ++ (.locked t (.preserveClaim k id owner), s₁) :: l₂) :
    ¬ Step (machine cfg) x (.locked t b) x' := by
  intro hs
  obtain ⟨op, hop, htext⟩ := h.locked (follows_delete cfg t) hs
  have hmay := (h.entry_text (follows_delete cfg t) hop hj t _ rfl).1
  cases op with
  | deletePod pod =>
    refine (htext t b rfl).2 pod rfl (.locked t (.preserveClaim k id owner), s₁) ?_ t _ rfl
    rw [hj]
    simp
  | updatePod pod => exact hmay.elim nofun fun hf => hf
  | _ => exact hmay

/-- **A preserving delete in progress**, at `n` the instant its section made: its claim is parked
since then, and what it saves is no older. -/
structure Preserving (t : Tid) (k : Key) (id : String) (n : ℕ) (l : List Entry) (s : State) :
    Prop where
  parked : ParkedFrom s k id n
  saving : s.saveMu = some t → n ≤ s.ledger.savingSince
  saved : (∃ u s₂, ((.asked t .rename (.ok u), s₂) : Entry) ∈ l) →
    ∃ i, s.disk.instant = some i ∧ n ≤ i

/-- **No `UpdatePod` brings a Pod to `k` while the claim there is kept for an owner.** -/
def SparesKept (k : Key) (s : State) : Ev → Prop
  | .locked _ (.updatePod key _) =>
    key = k → s.mem.pods.lookup k = none → ∀ c ∈ s.row k, c.owner = none
  | _ => True

instance (k : Key) (s : State) (ev : Ev) : Decidable (SparesKept k s ev) := by
  unfold SparesKept
  split <;> infer_instance

/-- **What the survival of the claim of `k` asks of the callers**: no `DeletePod` preserves it while
it is still tentative, and no `UpdatePod` hides it from the re-check. -/
def PreservesDurable (k : Key) (_ : List Ev) (s : State) : Ev → Prop
  | .locked _ (.preserveClaim key _ _) => key = k → k ∉ s.mem.tentative
  | ev => SparesKept k s ev

instance (k : Key) (tr : List Ev) (s : State) (ev : Ev) :
    Decidable (PreservesDurable k tr s ev) := by
  cases ev with
  | locked t a => cases a <;> dsimp only [PreservesDurable] <;> infer_instance
  | _ => dsimp only [PreservesDurable]; infer_instance

theorem PreservesDurable.spares {tr : List Ev} (h : PreservesDurable k tr s ev) :
    SparesKept k s ev := by
  cases ev with
  | locked t a =>
    cases a with
    | preserveClaim key id owner => trivial
    | _ => exact h
  | _ => exact h

/-- The others leave a parked claim alone: adoption and update are of its own queue. -/
theorem LeavesParked.of_other (hg : Guard cfg ev s) (hup : s.phase = .up)
    (ht : ev.tid ≠ some (.lifecycle k)) : LeavesParked k id ev s where
  adopt := by
    rintro t pod c rfl
    obtain ⟨-, rfl, -⟩ := hg
    exact absurd rfl ht
  update := by
    rintro t pod c rfl
    obtain ⟨-, rfl, -⟩ := hg
    exact absurd rfl ht
  load := by
    rintro t st now c rfl
    obtain ⟨hlive, rfl, -⟩ := hg
    cases hup.symm.trans hlive

theorem LeavesParked.of_not_locked (h : ∀ t a, ev ≠ .locked t a) : LeavesParked k id ev s where
  adopt := fun he => absurd he (h _ _)
  update := fun he => absurd he (h _ _)
  load := fun he => absurd he (h _ _)

namespace Preserving

variable {l : List Entry}

/-- Any event: a lock taken now is taken after the section. -/
theorem step (h : Preserving t k id n l s) (hparked : ParkedFrom s' k id n) (hg : Guard cfg ev s)
    (hs : apply ev s = some s') : Preserving t k id n l s' where
  parked := hparked
  saving := fun hm => by
    obtain ⟨hsame, hsince⟩ | ⟨u, -, -, -, hsince⟩ | ⟨u, -, -, hnone⟩ | rfl := (effect hs).saveMu
    · rw [hsince]
      exact h.saving (hsame ▸ hm)
    · rw [hsince]
      exact h.parked.le
    · rw [hnone] at hm
      cases hm
    · simp only [apply] at hs
      split at hs <;> cases hs
      cases hm
  saved := fun hr => by
    obtain ⟨i, hi, hle⟩ := h.saved hr
    obtain ⟨i', hi', hle'⟩ := (effect hs).diskInstant_le hg hi
    exact ⟨i', hi', hle.trans hle'⟩

/-- An event of its own: what it renames was read under its lock. -/
theorem own (h : Preserving t k id n l s) (hparked : ParkedFrom s' k id n) (hg : Guard cfg ev s)
    (hs : apply ev s = some s') : Preserving t k id n (l ++ [(ev, s)]) s' where
  parked := hparked
  saving := (h.step hparked hg hs).saving
  saved := by
    rintro ⟨u, s₂, hr⟩
    rcases List.mem_append.mp hr with hr | hr
    · exact (h.step hparked hg hs).saved ⟨u, s₂, hr⟩
    · cases List.mem_singleton.mp hr
      obtain ⟨d, hd, rfl⟩ := answer_rename (t := t) (u := u) hs
      obtain ⟨-, hheld, -, d', hren⟩ := hg
      obtain rfl : d' = d := Option.some.inj (hren.tmp.symm.trans hd)
      exact ⟨d'.instant, rfl, (h.saving hheld).trans hren.since⟩

end Preserving

/-- **The delete in progress.** -/
theorem Runs.preserving (h : Runs cfg file tr x) (hC : Throughout cfg file (PreservesDurable k) tr)
    {l₁ l₂ : List Entry} {owner : Option OwnerReference} {s₁ : State}
    (hj : journal cfg file (.lifecycle k) tr
      = l₁ ++ (.locked (.lifecycle k) (.preserveClaim k c.id owner), s₁) :: l₂)
    (hlook : (.read (.lifecycle k), s₀) ∈ l₁) (hc : s₀.row k = some c) :
    Preserving (.lifecycle k) k c.id (s₁.instant + 1) l₂ x.shared := by
  refine h.induct_journal (t := .lifecycle k) nofun hC (J := fun l s => ∀ l₂,
    l = l₁ ++ (.locked (.lifecycle k) (.preserveClaim k c.id owner), s₁) :: l₂ →
    Preserving (.lifecycle k) k c.id (s₁.instant + 1) l₂ s) ?_ ?_ ?_ l₂ hj
  · intro s l₂ hl
    simp at hl
  · intro tr x ev x' h hs hcond hup htid ih l₂ hl
    obtain ⟨hg, ha⟩ := h.next hs
    obtain rfl | ⟨l₃, last, rfl⟩ := List.eq_nil_or_concat l₂
    · -- the section itself
      obtain ⟨-, he⟩ := List.append_inj' hl rfl
      cases he
      have hfree : x.shared.saveMu ≠ some (.lifecycle k) := by
        obtain ⟨-, -, -, -, -, -, -, -, -, hfree⟩ := hg
        exact hfree
      rw [← Option.some.inj ha]
      exact ⟨.begin hg (hcond rfl), fun hm => absurd hm hfree, fun ⟨_, _, hr⟩ => by cases hr⟩
    · rw [List.concat_eq_append, ← List.cons_append, ← List.append_assoc] at hl
      obtain ⟨hl', he⟩ := List.append_inj' hl rfl
      cases he
      rw [List.concat_eq_append]
      have hseen : (.read (.lifecycle k), s₀) ∈ journal cfg file (.lifecycle k) tr := by
        rw [hl']
        exact List.mem_append_left _ hlook
      have hno : ∀ t a, ev ≠ .locked t a := by
        rintro t a rfl
        cases htid
        exact h.preserved_last hl' hs
      refine (ih l₃ hl').own ?_ hg ha
      exact (ih l₃ hl').parked.step h.inv hg ha (.of_not_locked hno)
        ((h.entry_evolves (t := .lifecycle k) nofun hseen).seen s₀.seen_mem) hc rfl
  · intro tr x ev x' h hs _ hup hne htid ih l₂ hl
    obtain ⟨hg, ha⟩ := h.next hs
    have hseen : (.read (.lifecycle k), s₀) ∈ journal cfg file (.lifecycle k) tr := by
      rw [hl]
      exact List.mem_append_left _ hlook
    refine (ih l₂ hl).step ?_ hg ha
    exact (ih l₂ hl).parked.step h.inv hg ha (.of_other hg hup htid)
      ((h.entry_evolves (t := .lifecycle k) nofun hseen).seen s₀.seen_mem) hc rfl

/-! ## From the return of the delete on -/

/-- Who adopts the claim leaves a binding. -/
theorem LeavesParked.of_unbound (hrun : Runs cfg file tr x) (hs : Step (machine cfg) x ev x')
    (hcond : SparesKept k x.shared ev) (hp : ParkedFrom x.shared k id n)
    (hload : x.shared.phase = .up ∨ ∃ i, x.shared.disk.instant = some i ∧ n ≤ i)
    (hno : ∀ b ∈ x'.shared.ledger.bindings, b.key = k → b.id = id → b.instant ≤ x.shared.instant) :
    LeavesParked k id ev x.shared where
  adopt := by
    rintro t pod c rfl hc rfl
    obtain ⟨call, hb⟩ := State.binding_adopted hc
    have ha : apply (.locked t (.adoptExistingClaim k pod)) x.shared = some x'.shared :=
      Step.apply hs
    rw [Option.some.inj ha] at hb
    exact absurd (hno _ hb rfl rfl) (Nat.not_succ_le_self _)
  update := by
    rintro t pod c rfl hpod hc
    exact hcond rfl hpod c hc
  load := by
    rintro t st now c rfl hc hid
    obtain hup | ⟨i, hi, hle⟩ := hload
    · obtain ⟨⟨hlive, rfl, -⟩, -⟩ := hrun.next hs
      cases hup.symm.trans hlive
    · exact hp.file hrun.projected hi hle hc hid

/-- **Until it is adopted a parked claim stays parked**: as long as the process goes on, and across
any number of restarts if the file shows it. -/
theorem ParkedFrom.run {tr' : List Ev}
    {y : Interleave.Config State Memory Section Request Reply Tid Op Outcome}
    (h : Runs cfg file tr x) (hrun : Run (machine cfg) x tr' y)
    (hC : Throughout cfg file (fun _ s ev => SparesKept k s ev) (tr ++ tr'))
    (hp : ParkedFrom x.shared k id n)
    (hd : (x.shared.phase = .up ∧ ∀ ev ∈ tr', ev ≠ .crashed) ∨
      ∃ i, x.shared.disk.instant = some i ∧ n ≤ i)
    (hm : x.shared.Seen m₀) (hc₀ : m₀.claims.lookup k = some c) (hid₀ : c.id = id)
    (hno : ∀ b ∈ y.shared.ledger.bindings, b.key = k → b.id = id → b.instant ≤ x.shared.instant) :
    ParkedFrom y.shared k id n := by
  refine (?_ : ParkedFrom y.shared k id n ∧ y.shared.Seen m₀ ∧
    x.shared.instant ≤ y.shared.instant).1
  induction hrun with
  | nil => exact ⟨hp, hm, le_rfl⟩
  | @snoc tr₁ x₁ ev x₂ h₁ hs ih =>
    have hrun₁ : Runs cfg file (tr ++ tr₁) x₁ := Run.append h h₁
    obtain ⟨hg, ha⟩ := hrun₁.next hs
    rw [← List.append_assoc] at hC
    have hbind : x₁.shared.ledger.bindings ⊆ x₂.shared.ledger.bindings := (effect ha).bindings_mono
    have hd₁ : (x.shared.phase = .up ∧ ∀ ev ∈ tr₁, ev ≠ .crashed) ∨
        ∃ i, x.shared.disk.instant = some i ∧ n ≤ i :=
      hd.imp_left fun hgoes => ⟨hgoes.1, fun ev' hev => hgoes.2 ev' (List.mem_append_left _ hev)⟩
    have hload : x₁.shared.phase = .up ∨ ∃ i, x₁.shared.disk.instant = some i ∧ n ≤ i := by
      obtain ⟨hup, hcrash⟩ | ⟨i, hi, hle⟩ := hd₁
      · exact .inl ((h.evolves h₁ hup hcrash).phase.trans hup)
      · obtain ⟨i', hi', hle'⟩ := h.diskInstant_run h₁ hi
        exact .inr ⟨i', hi', hle.trans hle'⟩
    obtain ⟨hp₁, ⟨j, hm₁⟩, hle₁⟩ := ih hC.left hd₁ fun b hb => hno b (hbind hb)
    have hl : LeavesParked k id ev x₁.shared :=
      .of_unbound hrun₁ hs (hC _ ev [] x₁ rfl hrun₁) hp₁ hload
      fun b hb hk hid => (hno b hb hk hid).trans hle₁
    exact ⟨hp₁.step hrun₁.inv hg ha hl ⟨j, hm₁⟩ hc₀ hid₀, ⟨j, (effect ha).memAt hm₁⟩,
      hle₁.trans (effect ha).instant_le⟩

/-- A credential in the tables is in the file, unless its row is tentative. -/
theorem Runs.holds_file (h : Runs cfg file tr x) (hsp : cfg.statePath) {cr : Credential}
    (hall : x.shared.mem.all.Holds cr)
    (hnot : ∀ k c, x.shared.row k = some c → c.cred = cr → k ∉ x.shared.mem.tentative) :
    x.shared.content.Holds cr := by
  refine h.durable hsp cr (Memory.holds_durable.mpr ?_)
  obtain ⟨k, c, hc, he⟩ | hq := hall
  · exact .inl ⟨k, c, hc, hnot k c hc he, he⟩
  · exact .inr hq

/-- **A `DeletePod` at `k` has looked up `c`, preserved it, and saved the tables with success.** -/
def PreservedAndSaved (k : Key) (c : Claim) (l : List Entry) : Prop :=
  ∃ l₁ s₁ owner l₂, l = l₁ ++ (.locked (.lifecycle k) (.preserveClaim k c.id owner), s₁) :: l₂ ∧
    (∃ s₀, ((.read (.lifecycle k), s₀) : Entry) ∈ l₁ ∧ s₀.row k = some c) ∧
    ∃ u s₂, ((.asked (.lifecycle k) .rename (.ok u), s₂) : Entry) ∈ l₂

/-- **A preserved claim survives a restart.**  A `DeletePod` that has preserved the claim `c` and
saved the tables returns.  If `c` is still in the tables then, it is in the state file; and from
then on, across crashes and restarts, until a Pod is bound to it, wherever it is a row out of
quarantine it is one of those a pass of the owner re-check counts. -/
theorem preserved_claim_survives (hsp : cfg.statePath) (h : Runs cfg file tr x)
    {y z : Interleave.Config State Memory Section Request Reply Tid Op Outcome} {pod : Pod}
    {r : Outcome} (hfin : Step (machine cfg) x (.finished (.lifecycle k) (.deletePod pod) r) y)
    (hsaved : PreservedAndSaved k c (journal cfg file (.lifecycle k) tr))
    {tr' : List Ev} (hrun : Run (machine cfg) y tr' z)
    (hC : Throughout cfg file (PreservesDurable k)
      (tr ++ .finished (.lifecycle k) (.deletePod pod) r :: tr')) :
    (x.shared.mem.all.Holds c.cred → y.shared.content.Holds c.cred) ∧
    ((∀ b ∈ z.shared.ledger.bindings, b.key = k → b.id = c.id → b.instant ≤ y.shared.instant) →
      ∀ c', z.shared.row k = some c' → c'.id = c.id → k ∉ z.shared.mem.quarantined →
        z.shared.mem.preserved.lookup k = some c') := by
  obtain ⟨l₁, s₁, owner, l₂, hj, ⟨s₀, hlook, hc⟩, hren⟩ := hsaved
  have hpres := h.preserving hC.left hj hlook hc
  have hmem : (.read (.lifecycle k), s₀) ∈ journal cfg file (.lifecycle k) tr := by
    rw [hj]
    exact List.mem_append_left _ hlook
  have hseen : x.shared.Seen s₀.mem :=
    (h.entry_evolves (t := .lifecycle k) nofun hmem).seen s₀.seen_mem
  obtain ⟨hg, ha⟩ := h.next hfin
  refine ⟨fun hall => ?_, fun hno c' hc' hid hq => ?_⟩
  · have hfile : y.shared.content = x.shared.content := by
      rw [← Option.some.inj ha]
      rfl
    rw [hfile]
    refine h.holds_file hsp hall fun k' c' hc' he ht => ?_
    -- a tentative row with its credential would be its own row
    have hid : c.id = c'.id := congrArg Credential.id he.symm
    obtain ⟨rfl, -⟩ := (h.inv.tentativeOnly ht hc' hseen).1 hc hid
    exact (hpres.parked.now c' hc' hid.symm).2.2 ht
  · have h' : Runs cfg file (tr ++ [.finished (.lifecycle k) (.deletePod pod) r]) y := h.snoc hfin
    have hl : LeavesParked k c.id (.finished (.lifecycle k) (.deletePod pod) r) x.shared :=
      .of_not_locked fun _ _ he => by cases he
    have hpark : ParkedFrom y.shared k c.id (s₁.instant + 1) :=
      hpres.parked.step h.inv hg ha hl hseen hc rfl
    have hdisk : ∃ i, y.shared.disk.instant = some i ∧ s₁.instant + 1 ≤ i :=
      (hpres.step hpark hg ha).saved hren
    have hseen' : y.shared.Seen s₀.mem := by
      obtain ⟨j, hm⟩ := hseen
      exact ⟨j, (effect ha).memAt hm⟩
    have hspares : Throughout cfg file (fun _ s ev => SparesKept k s ev)
        (tr ++ [.finished (.lifecycle k) (.deletePod pod) r] ++ tr') := by
      rw [List.append_assoc]
      exact hC.imp PreservesDurable.spares
    obtain ⟨howner, hpod, ht⟩ := (ParkedFrom.run h' hrun hspares hpark (.inr hdisk) hseen' hc rfl
      hno).now c' hc' hid
    exact Memory.lookup_preserved.mpr ⟨hc', howner, hpod, Memory.settled_eq_true.mpr ⟨ht, hq⟩⟩

/-! ## Runs -/

/-- The section an event enters. -/
def entered : Ev → Option (Tid × Section)
  | .locked t a => some (t, a)
  | _ => none

theorem entered_eq_some (h : entered ev = some (t, a)) : ev = .locked t a := by
  cases ev with
  | locked u b => cases h; rfl
  | _ => cases h

/-- The same, checked position by position. -/
def preservedAndSaved (k : Key) (c : Claim) (owner : Option OwnerReference) (l : List Entry) :
    Bool :=
  (List.range l.length).any fun i =>
    (l[i]?).any (fun e => entered e.1 = some (.lifecycle k, .preserveClaim k c.id owner)) &&
    ((l.take i).any fun e => readBy e.1 = some (.lifecycle k) ∧ e.2.row k = some c) &&
    (l.drop (i + 1)).any fun e => landed (.lifecycle k) e.1

theorem PreservedAndSaved.of_check {owner : Option OwnerReference} {l : List Entry}
    (h : preservedAndSaved k c owner l = true) : PreservedAndSaved k c l := by
  obtain ⟨i, -, hi⟩ := List.any_eq_true.mp h
  simp only [Bool.and_eq_true, Option.any_eq_true, decide_eq_true_eq, List.any_eq_true] at hi
  obtain ⟨⟨⟨⟨ev, s₁⟩, hget, hent⟩, ⟨ev₀, s₀⟩, hmem₀, hread, hrow⟩, ⟨ev₂, s₂⟩, hmem₂, hland⟩ := hi
  obtain rfl : ev = _ := entered_eq_some hent
  obtain rfl : ev₀ = _ := readBy_eq_some hread
  obtain ⟨u, rfl⟩ := landed_eq_true hland
  refine ⟨l.take i, s₁, owner, l.drop (i + 1), ?_, ⟨s₀, hmem₀, hrow⟩, u, s₂, hmem₂⟩
  obtain ⟨hlt, hi⟩ := List.getElem?_eq_some_iff.mp hget
  rw [← hi, List.getElem_cons_drop hlt, List.take_append_drop]

/-- The Pod of the runs below, and its owner. -/
def keptPod : Pod := samplePod "p" "u1" [sampleOwner "o1"]

/-- A claim kept for its owner is counted again after a crash and a restart. -/
theorem preserved_claim_survives_crash : ∃ tr x y tr' z c',
    Runs unlistedConfig .absent tr x ∧
    Step (machine unlistedConfig) x (.finished (.lifecycle "ns/p") (.deletePod keptPod) .ok) y ∧
    Run (machine unlistedConfig) y tr' z ∧ tr'.any EndsProcess = true ∧ z.shared.phase = .up ∧
    y.shared.content.Holds (sampleClaim "s1" keptPod).cred ∧ c'.id = "s1" ∧
    z.shared.mem.preserved.lookup "ns/p" = some c' := by
  obtain ⟨tr, x₁, ev, tr', z, ev', z', hx₁, hrun, -, hev, hcheck, hrow, hbind, hup, hc'⟩ :=
    exists_two_steps unlistedConfig .absent
      (call .boot .new 8 {} ++ call (.lifecycle "ns/p") (.createPod keptPod) 17
          { claimed := .ok (sampleResult "s1") } ++
        call (.lifecycle "ns/p") (.deletePod keptPod) 10 {})
      (.move (.lifecycle "ns/p") (World.reply {}))
      (.crash :: call .boot .new 10
        { file := .decoded (sampleFile "ns/p"
            { sampleClaim "s1" keptPod with owner := some (sampleOwner "o1") }) })
      (.start .ownerRecheck (.recheckOwners 0 0))
      (fun tr s ev tr' s' _ => returnedOk ev = some (.lifecycle "ns/p", .deletePod keptPod) ∧
        (preservedAndSaved "ns/p" (sampleClaim "s1" keptPod) (some (sampleOwner "o1"))
            (journal unlistedConfig .absent (.lifecycle "ns/p") tr) &&
          checkThroughout unlistedConfig .absent (PreservesDurable "ns/p") tr' &&
          (tr'.drop (tr.length + 1)).any EndsProcess) = true ∧
        (s.row "ns/p").map Claim.cred = some (sampleClaim "s1" keptPod).cred ∧
        (∀ b ∈ s'.ledger.bindings, b.instant ≤ s.instant) ∧
        s'.phase = .up ∧ (s'.row "ns/p").map Claim.id = some "s1")
      (by decide +kernel)
  obtain rfl := returnedOk_eq_some hev
  rw [Bool.and_eq_true, Bool.and_eq_true] at hcheck
  obtain ⟨⟨hsaved, hC⟩, hend⟩ := hcheck
  obtain ⟨x, y, hx, hfin, hrest⟩ := Run.split hrun
  have hsame : x.shared = x₁.shared := Run.shared_eq hx hx₁
  have hx' : Runs unlistedConfig .absent tr x := hx
  have hle : x.shared.instant ≤ y.shared.instant := (effect (hx'.next hfin).2).instant_le
  obtain ⟨c, hc, hcred⟩ := Option.map_eq_some_iff.mp hrow
  obtain ⟨c', hrow', hid⟩ := Option.map_eq_some_iff.mp hc'
  have hall : x.shared.mem.all.Holds (sampleClaim "s1" keptPod).cred := by
    rw [hsame, ← hcred]
    exact Memory.holds_row hc
  have hq : "ns/p" ∉ z.shared.mem.quarantined := fun hq => absurd (Runs.inv hrun |>.lister hq) nofun
  obtain ⟨hfile, hcounted⟩ :=
    preserved_claim_survives rfl hx hfin (.of_check hsaved) hrest (.of_check hC)
  refine ⟨tr, x, y, tr', z, c', hx, hfin, hrest, by simpa using hend, hup, hfile hall, hid, ?_⟩
  refine hcounted (fun b hb _ _ => ?_) c' hrow' hid hq
  rw [hsame] at hle
  exact (hbind b hb).trans hle

/-- **A claim that never reached the disk is not kept.**  A `CreatePod` fails to save its claim and
to give it back; the `DeletePod` that follows preserves the claim and saves the tables, and when it
returns the file does not name it, and no pass counts it. -/
theorem stranded_claim_not_preserved : ∃ tr x y c,
    Runs unlistedConfig .absent tr x ∧
    Step (machine unlistedConfig) x (.finished (.lifecycle "ns/p") (.deletePod keptPod) .ok) y ∧
    PreservedAndSaved "ns/p" c (journal unlistedConfig .absent (.lifecycle "ns/p") tr) ∧
    ((x.shared.row "ns/p").map Claim.id = some c.id ∧ "ns/p" ∉ x.shared.mem.quarantined) ∧
    c.id ∉ x.shared.content.ids ∧ x.shared.mem.preserved.lookup "ns/p" = none := by
  obtain ⟨tr, x, ev, y, hx, hfin, hev, hsaved, hrow, hids, hnone⟩ :=
    exists_step unlistedConfig .absent
      (call .boot .new 8 {} ++ call (.lifecycle "ns/p") (.createPod keptPod) 17
          { claimed := .ok (sampleResult "s1"), written := .error "disk full"
            released := .error "timeout" } ++
        call (.lifecycle "ns/p") (.deletePod keptPod) 10 {})
      (.move (.lifecycle "ns/p") (World.reply {}))
      (fun tr s ev => returnedOk ev = some (.lifecycle "ns/p", .deletePod keptPod) ∧
        preservedAndSaved "ns/p" (sampleClaim "s1" keptPod) (some (sampleOwner "o1"))
            (journal unlistedConfig .absent (.lifecycle "ns/p") tr) = true ∧
        ((s.row "ns/p").map Claim.id = some "s1" ∧ "ns/p" ∉ s.mem.quarantined) ∧
        "s1" ∉ s.content.ids ∧ s.mem.preserved.lookup "ns/p" = none)
      (by decide +kernel)
  obtain rfl := returnedOk_eq_some hev
  exact ⟨tr, x, y, sampleClaim "s1" keptPod, hx, hfin, .of_check hsaved, hrow, hids, hnone⟩

end Results

end VkSandbox
