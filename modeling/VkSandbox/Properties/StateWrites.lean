import VkSandbox.Machinery.Performs
import VkSandbox.Provider.Journals
import VkSandbox.Properties.Scenario

/-!
# Properties/StateWrites — the file moves forward, one snapshot at a time

Two locks are at work: `mu` for the snapshot, `saveMu` around snapshot, temporary file and rename.

    lockSave ── snapshot ── WriteFile ── Rename ── unlockSave
                   │                        │
                instant n            file := tables at n

`Projected` says that the file is the tables at one instant, `Undone` that a claim given back before
its commit landed stays out of every content.  `WriteEnds` ties what a writer returns to its rename.
-/

namespace VkSandbox

open Interleave

variable {cfg : Config} {s s' : State} {t : Tid} {a : Section} {k : Key} {c : Claim}

/-! ## The file is a snapshot -/

/-- **The file is the durable part of the tables as they were at one instant**, with the row of the
key whose commit wrote it; before the first write, it is as it was found. -/
structure Projected (found : File) (s : State) : Prop where
  unwritten : s.disk.instant = none → s.disk.file = found
  written : ∀ n, s.disk.instant = some n → ∃ m committing, s.memAt n = some m ∧
    s.disk.file = .table (m.snapshot committing).marshal ∧
    ∀ k, committing = some k → s.disk.writer = some (.lifecycle k)

theorem Projected.step {ev : Ev} {found : File} (h : Projected found s) (hg : Guard cfg ev s)
    (hs : apply ev s = some s') : Projected found s' := by
  have he := effect hs
  obtain ⟨hf, hi, hw⟩ | ⟨t, u, d, rfl, hd, hf, hi, hw⟩ := he.file
  · refine ⟨fun hn => hf.trans (h.unwritten (hi.symm.trans hn)), fun n hn => ?_⟩
    obtain ⟨m, committing, hm, hfile, hwho⟩ := h.written n (hi.symm.trans hn)
    exact ⟨m, committing, he.memAt hm, hf.trans hfile, fun k hk => hw.trans (hwho k hk)⟩
  · obtain ⟨-, -, d', hren⟩ := hg.2
    obtain rfl : d' = d := Option.some.inj (hren.tmp.symm.trans hd)
    refine ⟨fun hn => absurd (hi.symm.trans hn) nofun, fun n hn => ?_⟩
    obtain rfl : d'.instant = n := Option.some.inj (hi.symm.trans hn)
    obtain ⟨m, committing, hm, hst, hwho⟩ := hren.snapshot
    refine ⟨m, committing, he.memAt hm, by rw [hf, hst], fun k hk => ?_⟩
    rw [hw, hren.writer, (hwho k hk).1]

/-- A row of the file is the row of the version the file was taken from. -/
theorem Projected.row {found : File} (h : Projected found s) {n : ℕ} (hn : s.disk.instant = some n)
    (hc : s.content.claims.lookup k = some c) :
    ∃ m c₀, s.memAt n = some m ∧ m.claims.lookup k = some c₀ ∧ c = c₀.marshal := by
  obtain ⟨m, committing, hm, hfile, -⟩ := h.written n hn
  rw [State.content, hfile, File.content, StateFile.marshal, Table.lookup_pick,
    Option.bind_eq_some_iff] at hc
  obtain ⟨c₀, h₀, hc⟩ := hc
  exact ⟨m, c₀, hm, (Memory.lookup_snapshot.mp h₀).1, (Option.some.inj hc).symm⟩

/-! ## One writer at a time -/

/-- The events that take the save lock away from `t`. -/
def endsSave (t : Tid) : Ev → Bool
  | .asked u .unlockSave _ => u = t
  | .crashed => true
  | _ => false

/-- A rename of `t` that landed. -/
def landed (t : Tid) : Ev → Bool
  | .asked u .rename (.ok _) => u = t
  | _ => false

theorem landed_eq_true {ev : Ev} (h : landed t ev = true) : ∃ u, ev = .asked t .rename (.ok u) := by
  cases ev with
  | asked u e r =>
    cases e with
    | rename =>
      cases r with
      | ok v => obtain rfl := of_decide_eq_true h; exact ⟨v, rfl⟩
      | error err => cases h
    | _ => cases h
  | _ => cases h

theorem endsSave_eq_true {ev : Ev} (h : endsSave t ev = true) :
    (∃ r, ev = .asked t .unlockSave r) ∨ ev = .crashed := by
  cases ev with
  | asked u e r =>
    cases e with
    | unlockSave => obtain rfl := of_decide_eq_true h; exact .inl ⟨r, rfl⟩
    | _ => cases h
  | crashed => exact .inr rfl
  | _ => cases h

/-- A write of `t` in progress, since the instant `n` and the content `found`. -/
structure Saving (t : Tid) (n : ℕ) (found : File) (tr : List Ev) (s : State) : Prop where
  held : s.saveMu = some t
  since : s.ledger.savingSince = n
  done : tr.any (landed t) = true → ∃ n', s.disk.instant = some n' ∧ n ≤ n'
  kept : tr.any (landed t) = false → s.disk.file = found

theorem Saving.step {ev : Ev} {tr : List Ev} {n : ℕ} {found : File} (h : Saving t n found tr s)
    (hend : endsSave t ev = false) (hg : Guard cfg ev s) (hs : apply ev s = some s') :
    Saving t n found (tr ++ [ev]) s' := by
  have he := effect hs
  have hheld : s'.saveMu = some t ∧ s'.ledger.savingSince = n := by
    obtain ⟨hm, hv⟩ | ⟨u, rfl, hm, -⟩ | ⟨u, rfl, hm, -⟩ | rfl := he.saveMu
    · exact ⟨hm.trans h.held, hv.trans h.since⟩
    · rw [h.held] at hm
      cases hm
    · obtain rfl : t = u := Option.some.inj (h.held.symm.trans hm)
      simp [endsSave] at hend
    · cases hend
  refine ⟨hheld.1, hheld.2, fun hl => ?_, fun hl => ?_⟩
  · rw [List.any_append, Bool.or_eq_true] at hl
    obtain hl | hl := hl
    · obtain ⟨n', hn', hle⟩ := h.done hl
      obtain ⟨n'', hn'', hle'⟩ := he.diskInstant_le hg hn'
      exact ⟨n'', hn'', hle.trans hle'⟩
    · obtain ⟨u, rfl⟩ := landed_eq_true (by simpa using hl)
      obtain ⟨d, hd, rfl⟩ := answer_rename (t := t) (u := u) hs
      obtain ⟨-, -, d', hren⟩ := hg.2
      obtain rfl : d' = d := Option.some.inj (hren.tmp.symm.trans hd)
      exact ⟨d'.instant, rfl, h.since ▸ hren.since⟩
  · rw [List.any_append, Bool.or_eq_false_iff] at hl
    obtain ⟨hf, -⟩ | ⟨u, r, d, rfl, -⟩ := he.file
    · exact hf.trans (h.kept hl.1)
    · obtain ⟨hm, -⟩ := hg.2
      obtain rfl : t = u := Option.some.inj (h.held.symm.trans hm)
      simp [landed] at hl

/-! ## What a writer returns -/

/-- **What a writer has done when it returns**: nil with a state file means that its rename landed
under the lock it took first; an error, that no rename of its own did. -/
structure WriteEnds (cfg : Config) (t : Tid) (l : List Entry) (r : Except ProviderError Unit) :
    Prop where
  ok : r = .ok () → cfg.statePath → ∃ s₀ l₁ s₁ l₂,
    l = (.asked t .lockSave (), s₀) :: l₁ ++ (.asked t .rename (.ok ()), s₁) :: l₂ ∧
      ∀ e ∈ l₁, endsSave t e.1 = false
  failed : ∀ err, r = .error err → ∀ e ∈ l, landed t e.1 = false

/-- What `write` adds to the journal. -/
structure WriteAdds (cfg : Config) (t : Tid) (l l' : List Entry) (r : Except ProviderError Unit) :
    Prop where
  adds : ∃ added, l' = l ++ added ∧
    (r = .ok () → cfg.statePath → ∃ l₁ s, added = l₁ ++ [(.asked t .rename (.ok ()), s)] ∧
      ∀ e ∈ l₁, endsSave t e.1 = false) ∧
    ∀ err, r = .error err → ∀ e ∈ added, landed t e.1 = false

theorem text_write (committing : Option Key) (l : List Entry) :
    Text cfg t (fun _ _ _ => True) (WriteAdds cfg t l) (write cfg committing) l := by
  unfold write
  split
  · next hp =>
    refine ⟨[], by simp, fun _ hpath => ?_, nofun⟩
    simp [hpath] at hp
  refine Text.look fun s₁ => ⟨trivial, Text.request fun r s₂ _ _ => ⟨trivial, ?_⟩⟩
  cases r with
  | error err =>
    refine ⟨[(_, s₁), (_, s₂)], by rw [List.append_assoc]; rfl, nofun, fun _ _ => ?_⟩
    simp [landed]
  | ok u =>
    refine Text.request fun r s₃ _ _ => ⟨trivial, ?_⟩
    cases r with
    | error err =>
      refine ⟨[(_, s₁), (_, s₂), (_, s₃)], by simp only [List.append_assoc]; rfl, nofun,
        fun _ _ => ?_⟩
      simp [landed]
    | ok u =>
      refine Text.request fun r s₄ _ _ => ⟨trivial, ?_⟩
      cases r with
      | error err =>
        refine ⟨[(_, s₁), (_, s₂), (_, s₃), (_, s₄)], by simp only [List.append_assoc]; rfl, nofun,
          fun _ _ => ?_⟩
        simp [landed]
      | ok u =>
        refine ⟨[(_, s₁), (_, s₂), (_, s₃), (_, s₄)], by simp only [List.append_assoc]; rfl,
          fun _ _ => ⟨[(_, s₁), (_, s₂), (_, s₃)], s₄, rfl, ?_⟩, nofun⟩
        simp [endsSave]

/-- A `write` under the lock, with what comes after it. -/
theorem WriteAdds.ends {s₀ : State} {l' rest : List Entry} {r : Except ProviderError Unit}
    (h : WriteAdds cfg t [(.asked t .lockSave (), s₀)] l' r)
    (hrest : ∀ e ∈ rest, landed t e.1 = false) : WriteEnds cfg t (l' ++ rest) r := by
  obtain ⟨added, rfl, hok, herr⟩ := h.adds
  refine ⟨fun hr hp => ?_, fun err hr => ?_⟩
  · obtain ⟨l₁, s, rfl, hno⟩ := hok hr hp
    exact ⟨s₀, l₁, s, rest, by simp, hno⟩
  · refine List.forall_mem_append.mpr ⟨List.forall_mem_append.mpr ⟨?_, herr err hr⟩, hrest⟩
    simp [landed]

theorem text_persist : Text cfg t (fun _ _ _ => True) (WriteEnds cfg t) (persist cfg) [] := by
  unfold persist
  refine Text.request fun _ s₀ _ _ => ⟨trivial, ?_⟩
  refine Machine.Follows.call (text_write none _) fun l r h => ?_
  exact Text.request fun _ s₁ _ _ => ⟨trivial, h.ends (by simp [landed])⟩

theorem text_commitClaim (k : Key) :
    Text cfg t (fun _ _ _ => True) (WriteEnds cfg t) (commitClaim cfg k) [] := by
  unfold commitClaim
  refine Text.request fun _ s₀ _ _ => ⟨trivial, ?_⟩
  refine Machine.Follows.call (text_write (some k) _) fun l r h => ?_
  cases r with
  | error err => exact Text.request fun _ s₁ _ _ => ⟨trivial, h.ends (by simp [landed])⟩
  | ok u =>
    refine Text.enter fun s₁ => ⟨trivial, Text.request fun _ s₂ _ _ => ⟨trivial, ?_⟩⟩
    rw [List.append_assoc]
    exact h.ends (by simp [landed])

/-! ## What was given back stays out -/

/-- **A claim given back before its commit landed** is tentative wherever it is a row, is in no
queue, and has never been in the file. -/
structure Undone (s : State) : Prop where
  sent : s.ledger.undone ⊆ s.ledger.sent
  row : ∀ {id m k c}, id ∈ s.ledger.undone → s.Seen m → m.claims.lookup k = some c → c.id = id →
    k ∈ m.tentative
  queue : ∀ {id m c}, id ∈ s.ledger.undone → s.Seen m → c ∈ m.releasing → c.id ≠ id
  filed : ∀ {id}, id ∈ s.ledger.undone → id ∉ s.ledger.filed

theorem Undone.row_run (h : Undone s) (hi : Inv cfg s) (hg : SectionGuard cfg s t a)
    (hid : c.id ∈ s.ledger.undone) (hc : (a.run s.mem).claims.lookup k = some c) :
    k ∈ (a.run s.mem).tentative := by
  by_cases hload : ∃ st now, a = .load st now
  · obtain ⟨st, now, rfl⟩ := hload
    obtain ⟨c₀, at₀, h₀, rfl⟩ := Memory.row_load (m := s.mem) hc
    refine absurd (hi.filed ?_) (h.filed hid)
    rw [State.content, hg.2.2.1]
    exact StateFile.mem_ids.mpr ⟨c₀.cred, .inl ⟨k, c₀, h₀, rfl⟩, rfl⟩
  obtain ⟨c₀, h₀, hsame⟩ | hcr := Section.row_back hc
  · have ht₀ := h.row (hsame.id ▸ hid) s.seen_mem h₀ rfl
    obtain ht | ⟨id, rfl⟩ | rfl := Section.tentative_forward (a := a) ht₀
    · exact ht
    · obtain ⟨h₁, hne⟩ := Memory.row_withdrawClaim.mp hc
      exact absurd (hg.2.2.1 c h₁) (hne rfl)
    · obtain ⟨-, -, -, c', hc', hns, -⟩ := hg
      obtain rfl : c' = c₀ := Option.some.inj (hc'.symm.trans h₀)
      exact absurd (h.sent (hsame.id ▸ hid)) hns
  · cases a with
    | load st now => exact absurd ⟨st, now, rfl⟩ hload
    | insertClaim key pod c₀ =>
      obtain ⟨rfl, rfl⟩ := hcr
      exact Finset.mem_insert_self _ _
    | _ => exact hcr.elim

theorem Undone.queue_run (h : Undone s) (hi : Inv cfg s) (hg : SectionGuard cfg s t a)
    (hc : c ∈ (a.run s.mem).releasing) : c.id ∉ s.ledger.undone := by
  intro hid
  have hset : ∀ {k c₀}, s.row k = some c₀ → s.mem.settled k → c₀.id = c.id → False :=
    fun h₀ hs he => (Memory.settled_eq_true.mp hs).1 (h.row (he ▸ hid) s.seen_mem h₀ rfl)
  obtain hc | ⟨st, now, rfl, hm⟩ | ⟨key, pod, -, h₀, hs, -⟩ | ⟨key, rfl, hw⟩ :=
    Section.releasing_back hc
  · exact h.queue hid s.seen_mem hc rfl
  · refine h.filed hid (hi.filed ?_)
    rw [State.content, hg.2.2.1]
    exact StateFile.mem_ids.mpr ⟨c.cred, .inr ⟨c, hm, rfl⟩, rfl⟩
  · exact hset h₀ hs rfl
  · obtain ⟨cur, hcur, he, -⟩ := Memory.withdrawable_iff.mp hw
    exact hset hcur (hg.2.2.2 cur hcur he).2 he

/-- A snapshot of a version of the tables names no claim that was given back. -/
theorem Undone.snapshot (h : Undone s) {m : Memory} (hm : s.Seen m) {committing : Option Key}
    (hcommit : ∀ k, committing = some k → ∀ c, m.claims.lookup k = some c → c.id ∉ s.ledger.sent)
    {id : String} (hid : id ∈ s.ledger.undone) : id ∉ (m.snapshot committing).marshal.ids := by
  intro hmem
  obtain ⟨cr, hcr, rfl⟩ := StateFile.mem_ids.mp hmem
  obtain ⟨k, c, hk, rfl⟩ | ⟨c, hc, rfl⟩ := StateFile.holds_marshal.mp hcr
  · obtain ⟨hk, ht | hk'⟩ := Memory.lookup_snapshot.mp hk
    · exact ht (h.row hid hm hk rfl)
    · exact hcommit k hk' c hk (h.sent hid)
  · exact h.queue hid hm hc rfl

theorem Undone.step {ev : Ev} (h : Undone s) (hi : Inv cfg s) (hg : Guard cfg ev s)
    (hs : apply ev s = some s') : Undone s' := by
  have he := effect hs
  -- the claim that is being given back is tentative now, hence only ever was
  have hundo : ∀ {id k token c}, ev = .asked (.lifecycle k) (.sendRelease id token) () →
      k ∈ s.mem.tentative → s.row k = some c → c.id = id →
      (∀ {m}, s.Seen m → (∀ {k' c'}, m.claims.lookup k' = some c' → c'.id = id → k' ∈ m.tentative) ∧
        ∀ c' ∈ m.releasing, c'.id ≠ id) ∧ id ∉ s.ledger.filed := by
    rintro id k token c rfl ht hc rfl
    refine ⟨fun {m} hm => ⟨fun hc' he' => ?_, (hi.tentativeOnly ht hc hm).2⟩, fun hf => ?_⟩
    · obtain ⟨rfl, hmt⟩ := (hi.tentativeOnly ht hc hm).1 hc' he'
      exact hmt
    · exact hg.2.2 (hi.tentativeFiled ht hc hf)
  refine ⟨fun id hid => ?_, fun {id m k c} hid hm hc hcid => ?_, fun {id m c} hid hm hc => ?_,
    fun {id} hid => ?_⟩
  · obtain hid | ⟨k, token, c, rfl, -⟩ := he.undone_new hid
    · exact he.sent (h.sent hid)
    · cases hs
      exact Finset.mem_insert_self _ _
  · obtain hm | ⟨t, a, rfl, rfl⟩ | ⟨-, rfl⟩ := he.seen hm
    · obtain hid | ⟨k', token, c', hev, ht, hc', he'⟩ := he.undone_new hid
      · exact h.row hid hm hc hcid
      · exact ((hundo hev ht hc' he').1 hm).1 hc hcid
    · cases hs
      subst hcid
      exact h.row_run hi hg.2 hid hc
    · simp at hc
  · obtain hm | ⟨t, a, rfl, rfl⟩ | ⟨-, rfl⟩ := he.seen hm
    · obtain hid | ⟨k', token, c', hev, ht, hc', he'⟩ := he.undone_new hid
      · exact h.queue hid hm hc
      · exact ((hundo hev ht hc' he').1 hm).2 c hc
    · cases hs
      rintro rfl
      exact h.queue_run hi hg.2 hc hid
    · cases hc
  · intro hf
    obtain hid | ⟨k', token, c', rfl, ht, hc', he'⟩ := he.undone_new hid
    · obtain hf | ⟨t, u, d, rfl, hd, hf⟩ := he.filed_new hf
      · exact h.filed hid hf
      · obtain ⟨-, -, d', hren⟩ := hg.2
        obtain rfl : d' = d := Option.some.inj (hren.tmp.symm.trans hd)
        obtain ⟨m, committing, hm, hst, hwho⟩ := hren.snapshot
        rw [hst] at hf
        exact h.snapshot ⟨_, hm⟩ (fun k hk => (hwho k hk).2) hid hf
    · cases hs
      exact (hundo rfl ht hc' he').2 hf

theorem undone_initial (file : File) : Undone (State.initial file) where
  sent := Finset.Subset.refl _
  row := fun h => absurd h (Finset.notMem_empty _)
  queue := fun h => absurd h (Finset.notMem_empty _)
  filed := fun h => absurd h (Finset.notMem_empty _)

section Results

variable {file : File} {tr : List Ev}
  {x y z : Interleave.Config State Memory Section Request Reply Tid Op Outcome}

/-- No step of `t` in a trace from `x` changes the content of the file. -/
def SparesFile (cfg : Config) (t : Tid)
    (x : Interleave.Config State Memory Section Request Reply Tid Op Outcome) (tr : List Ev) :
    Prop :=
  ∀ tr₁ ev tr₂ x₁ x₂, tr = tr₁ ++ ev :: tr₂ → Run (machine cfg) x tr₁ x₁ →
    Step (machine cfg) x₁ ev x₂ → ev.tid = some t → x₂.shared.disk.file = x₁.shared.disk.file

theorem Runs.undone (h : Runs cfg file tr x) : Undone x.shared :=
  h.guarded.invariant (sound cfg) (inv_initial cfg file) (undone_initial file)
    fun _ _ _ hi hj hg hs => hj.step hi hg hs

theorem Runs.projected (h : Runs cfg file tr x) : Projected file x.shared :=
  h.guarded.invariant (sound cfg) (inv_initial cfg file) ⟨fun _ => rfl, nofun⟩
    fun _ _ _ _ hj hg hs => hj.step hg hs

/-- The instants of the contents never decrease. -/
theorem Runs.diskInstant_run (h : Runs cfg file tr x) {tr' : List Ev}
    (h' : Run (machine cfg) x tr' y) {n : ℕ} (hn : x.shared.disk.instant = some n) :
    ∃ n', y.shared.disk.instant = some n' ∧ n ≤ n' := by
  refine (h.after h').invariant (sound cfg) h.inv
    (J := fun s => ∃ n', s.disk.instant = some n' ∧ n ≤ n') ⟨n, hn, le_rfl⟩ ?_
  rintro ev s s' - ⟨n', hn', hle⟩ hg hs
  obtain ⟨n'', hn'', hle'⟩ := (effect hs).diskInstant_le hg hn'
  exact ⟨n'', hn'', hle.trans hle'⟩

theorem Runs.instant_run (h : Runs cfg file tr x) {tr' : List Ev} (h' : Run (machine cfg) x tr' y) :
    x.shared.instant ≤ y.shared.instant :=
  (h.after h').invariant (sound cfg) h.inv (J := fun s => x.shared.instant ≤ s.instant) le_rfl
    fun _ _ _ _ hj _ hs => hj.trans (effect hs).instant_le

/-- From taking the save lock on, until it is given back. -/
theorem Runs.saving (h : Runs cfg file tr x) {tr' : List Ev}
    (hlock : Step (machine cfg) x (.asked t .lockSave ()) y) (hrun : Run (machine cfg) y tr' z)
    (hheld : ∀ ev ∈ tr', endsSave t ev = false) :
    Saving t x.shared.instant x.shared.disk.file tr' z.shared := by
  obtain ⟨-, hs⟩ := h.next hlock
  obtain ⟨hnone, hy⟩ := answer_lockSave (t := t) hs
  have h₁ : Runs cfg file (tr ++ [.asked t .lockSave ()]) y := h.snoc hlock
  exact (h₁.after hrun).induct (sound cfg) h₁.inv
    (J := fun tr s => (∀ ev ∈ tr, endsSave t ev = false) →
      Saving t x.shared.instant x.shared.disk.file tr s)
    (fun _ => by rw [hy]; exact ⟨rfl, rfl, nofun, fun _ => rfl⟩)
    (fun tr ev s s' _ hj hg hs hend => (hj fun e he => hend e (List.mem_append_left _ he)).step
      (hend ev (by simp)) hg hs) hheld

/-- **A writer that returns nil** has a content not older than its beginning in the file. -/
theorem Runs.saved_of_ok (h : Runs cfg file tr x) {p : Code (Except ProviderError Unit)}
    {tr' : List Ev} (hex : Executes (machine cfg) t p x tr' (.ok ()) y)
    (hp : Text cfg t (fun _ _ _ => True) (WriteEnds cfg t) p []) (hpath : cfg.statePath) :
    ∃ n, y.shared.disk.instant = some n ∧ x.shared.instant ≤ n := by
  obtain ⟨s₀, l₁, s₁, l₂, hj, hno⟩ := (hex.text hp).ok rfl hpath
  -- the trace of the call: up to its lock, up to its rename, and the rest
  obtain ⟨tr₁, tr₂, rfl, hr₁, hj₁, -, -⟩ := Machine.journal_split hex.run.replay hj
  obtain ⟨w, tr₃, rfl, -, hjw, -, -⟩ :=
    Machine.journal_split hr₁ (hj₁.trans (List.nil_append _).symm)
  obtain ⟨x₂, x₃, h₂, hren, h₃⟩ := hex.run.split
  obtain ⟨x₀, x₁, h₀, hlock, h₁⟩ := h₂.split
  have hwhole : ∀ ev ∈ w ++ .asked t .lockSave () :: tr₃, ¬ ev.Resets t := fun ev hev =>
    hex.whole ev (List.mem_append_left _ hev)
  have hown : tr₃.filter (·.tid = some t) = l₁.map Prod.fst := by
    have hall := h₂.journal_events hwhole
    have hbefore := h₀.journal_events fun ev hev => hwhole ev (List.mem_append_left _ hev)
    rw [hjw] at hbefore
    rw [hj₁, List.filter_append, ← hbefore] at hall
    simpa [Event.tid] using hall.symm
  have hheld : ∀ ev ∈ tr₃, endsSave t ev = false := by
    intro ev hev
    by_contra hend
    have hin : ev ∈ l₁.map Prod.fst := by
      rw [← hown]
      refine List.mem_filter.mpr ⟨hev, ?_⟩
      obtain ⟨r, rfl⟩ | rfl := endsSave_eq_true (Bool.not_eq_false _ ▸ hend)
      · simp [Event.tid]
      · exact absurd trivial (hwhole .crashed (by simp [hev]))
    obtain ⟨e, he, rfl⟩ := List.mem_map.mp hin
    exact hend (hno e he)
  have hx₀ : Runs cfg file (tr ++ w) x₀ := Run.append h h₀
  have hsave := hx₀.saving hlock (h₁.snoc hren)
    (List.forall_mem_append.mpr ⟨hheld, by simp [endsSave]⟩)
  obtain ⟨n, hn, hle⟩ := hsave.done (by simp [landed])
  obtain ⟨n', hn', hle'⟩ := Runs.diskInstant_run ((Run.append h h₂).snoc hren) h₃ hn
  exact ⟨n', hn', ((h.instant_run h₀).trans hle).trans hle'⟩

/-- **A writer that fails** has renamed nothing, and nothing it did touched the file. -/
theorem Runs.spared_of_error (h : Runs cfg file tr x) {p : Code (Except ProviderError Unit)}
    {tr' : List Ev} {err : ProviderError} (hex : Executes (machine cfg) t p x tr' (.error err) y)
    (hp : Text cfg t (fun _ _ _ => True) (WriteEnds cfg t) p []) : SparesFile cfg t x tr' := by
  rintro tr₁ ev tr₂ x₁ x₂ rfl h₁ hs htid
  obtain ⟨-, ha⟩ := Runs.next (Run.append h h₁) hs
  obtain ⟨hf, -⟩ | ⟨u, r, d, rfl, -⟩ := (effect ha).file
  · exact hf
  obtain rfl : u = t := Option.some.inj htid
  have hin : (.asked u .rename (.ok r) : Ev) ∈
      ((machine cfg).journal u [] x.shared (tr₁ ++ .asked u .rename (.ok r) :: tr₂)).map
        Prod.fst := by
    rw [hex.run.journal_events hex.whole]
    simp [Event.tid]
  obtain ⟨e, he, heq⟩ := List.mem_map.mp hin
  have := (hex.text hp).failed err rfl e he
  simp [heq, landed] at this

/-- **State-file writes never go backwards and never leak tentative rows.**  The content is the
durable part of the tables at one instant; the instants never decrease.  Between taking the save
lock and giving it back, a writer whose rename landed leaves a content no older than its beginning,
and one whose rename did not leaves the content alone.  A whole `persist` or `commitClaim` that
returns nil leaves a content no older than its own beginning; one that returns an error leaves the
content alone in every step of its own.  A tentative row gets into the file by the commit of its own
key only, and a claim given back before its commit landed has never been in it. -/
theorem state_writes_monotone (h : Runs cfg file tr x) :
    Projected file x.shared ∧
    (∀ tr' x', Run (machine cfg) x tr' x' → ∀ n, x.shared.disk.instant = some n →
      ∃ n', x'.shared.disk.instant = some n' ∧ n ≤ n') ∧
    (∀ t x₁ tr' x₂, Step (machine cfg) x (.asked t .lockSave ()) x₁ → Run (machine cfg) x₁ tr' x₂ →
      (∀ ev ∈ tr', endsSave t ev = false) →
      (tr'.any (landed t) = true →
        ∃ n, x₂.shared.disk.instant = some n ∧ x.shared.instant ≤ n) ∧
      (tr'.any (landed t) = false → x₂.shared.disk.file = x.shared.disk.file)) ∧
    (∀ t tr' r y, Executes (machine cfg) t (persist cfg) x tr' r y →
      (r = .ok () → cfg.statePath → ∃ n, y.shared.disk.instant = some n ∧ x.shared.instant ≤ n) ∧
      ∀ err, r = .error err → SparesFile cfg t x tr') ∧
    (∀ t k tr' r y, Executes (machine cfg) t (commitClaim cfg k) x tr' r y →
      (r = .ok () → cfg.statePath → ∃ n, y.shared.disk.instant = some n ∧ x.shared.instant ≤ n) ∧
      ∀ err, r = .error err → SparesFile cfg t x tr') ∧
    (∀ n m k c, x.shared.disk.instant = some n → x.shared.memAt n = some m → k ∈ m.tentative →
      x.shared.content.claims.lookup k = some c → x.shared.disk.writer = some (.lifecycle k)) ∧
    (∀ k c, k ∈ x.shared.mem.tentative → x.shared.row k = some c → c.id ∈ x.shared.ledger.filed →
      x.shared.saveMu = some (.lifecycle k)) ∧
    ∀ id ∈ x.shared.ledger.undone, id ∉ x.shared.ledger.filed := by
  refine ⟨h.projected, fun tr' x' h' n hn => h.diskInstant_run h' hn, ?_, ?_, ?_, ?_,
    fun k c ht hc hf => h.inv.tentativeFiled ht hc hf, fun id hid => h.undone.filed hid⟩
  · intro t x₁ tr' x₂ hlock hrun hheld
    have hsaving := h.saving hlock hrun hheld
    exact ⟨hsaving.done, hsaving.kept⟩
  · rintro t tr' r y hex
    exact ⟨fun hr hp => h.saved_of_ok (hr ▸ hex) text_persist hp,
      fun err hr => h.spared_of_error (hr ▸ hex) text_persist⟩
  · rintro t k tr' r y hex
    exact ⟨fun hr hp => h.saved_of_ok (hr ▸ hex) (text_commitClaim k) hp,
      fun err hr => h.spared_of_error (hr ▸ hex) (text_commitClaim k)⟩
  · intro n m k c hn hm ht hc
    obtain ⟨m', committing, hm', hfile, hwho⟩ := h.projected.written n hn
    obtain rfl : m' = m := Option.some.inj (hm'.symm.trans hm)
    refine hwho k ?_
    rw [State.content, hfile, File.content, StateFile.marshal, Table.lookup_pick,
      Option.bind_eq_some_iff] at hc
    obtain ⟨c₀, h₀, -⟩ := hc
    exact (Memory.lookup_snapshot.mp h₀).2.resolve_left fun hn => hn ht

/-- A commit fails and its claim is given back: no content of the file has ever named it. -/
theorem state_writes_monotone_of_undone : ∃ tr x, Runs fullConfig .absent tr x ∧
    Projected .absent x.shared ∧ x.shared.disk.instant.isSome ∧
    "s1" ∈ x.shared.ledger.undone ∧ "s1" ∉ x.shared.ledger.filed := by
  obtain ⟨tr, x, hrun, hinst, hundone⟩ := exists_run fullConfig .absent
    (call .boot .new 10 {} ++ call (.lifecycle "ns/p") (.createPod (samplePod "p" "u1" [])) 18
      { claimed := .ok (sampleResult "s1"), written := .error "disk full" })
    (fun _ s => s.disk.instant.isSome ∧ "s1" ∈ s.ledger.undone) (by decide +kernel)
  have h := state_writes_monotone hrun
  exact ⟨tr, x, hrun, h.1, hinst, hundone, h.2.2.2.2.2.2.2 "s1" hundone⟩

end Results

end VkSandbox
