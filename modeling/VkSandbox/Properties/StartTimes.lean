import VkSandbox.Properties.StateWrites
import VkSandbox.Properties.Succession

/-!
# Properties/StartTimes — the start time of a sandbox never moves

A status carries the `ClaimedAt` of its row.  The time of a sandbox is fixed in three places:

    a fresh claim        the clock of its create
    a table with times   what the table says, in whole seconds
    a table without      the clock of the load, once its rewrite has landed

and everything that happens to a row afterwards keeps it.  A load that dies before its rewrite may
be repeated with another clock, but it has served no status: `New` returns after the rewrite.
-/

namespace VkSandbox

open Interleave

variable {cfg : Config} {s s' : State} {t : Tid} {a : Section} {k k' : Key} {c c' : Claim} {ev : Ev}

/-! ## Dates -/

/-- Two claims that have a start time, the same one in whole seconds. -/
structure SameDate (c c' : Claim) : Prop where
  left : second ≤ c.claimedAt
  right : second ≤ c'.claimedAt
  eq : wholeSeconds c.claimedAt = wholeSeconds c'.claimedAt

namespace SameDate

theorem refl (h : second ≤ c.claimedAt) : SameDate c c := ⟨h, h, rfl⟩

theorem of_eq {c₁ c₁' : Claim} (h : SameDate c c') (h₁ : c₁.claimedAt = c.claimedAt)
    (h₁' : c₁'.claimedAt = c'.claimedAt) : SameDate c₁ c₁' :=
  ⟨h₁ ▸ h.left, h₁' ▸ h.right, by rw [h₁, h₁']; exact h.eq⟩

theorem marshal_right (h : SameDate c c') : SameDate c c'.marshal :=
  ⟨h.left, le_wholeSeconds h.right, h.eq.trans (wholeSeconds_idem _).symm⟩

theorem marshal_left (h : SameDate c c') : SameDate c.marshal c' :=
  ⟨le_wholeSeconds h.left, h.right, (wholeSeconds_idem _).trans h.eq⟩

theorem ne_zero {i : Time} (h : second ≤ i) : i ≠ 0 := by
  rintro rfl
  exact absurd h (by decide)

end SameDate

/-- **A table whose start times agree**: two rows of one sandbox both lack theirs, or have the same
one, and none lies in the first second of year 1. -/
def StateFile.Dated (st : StateFile) : Prop :=
  ∀ ⦃k k' c c'⦄, st.claims.lookup k = some c → st.claims.lookup k' = some c' → c.id = c'.id →
    c.claimedAt = 0 ∧ c'.claimedAt = 0 ∨ SameDate c c'

/-- **Start times agree**: in what this process has had in its tables, and in the file. -/
structure Dates (cfg : Config) (s : State) : Prop where
  rows : ∀ {k k' c c'}, s.Showed k c → s.Showed k' c' → c.id = c'.id → SameDate c c'
  file : cfg.statePath → s.content.Dated
  saving : s.saveMu.isSome → s.ledger.born ≤ s.ledger.savingSince

/-! ## Where a shown row comes from -/

/-- A row this process has shown was shown before, or an event of a section puts it there. -/
theorem State.Showed.back (h : s'.Showed k c) (hs : apply ev s = some s')
    (hb : s'.ledger.born = s.ledger.born) :
    s.Showed k c ∨ ∃ t a, ev = .locked t a ∧ (a.run s.mem).claims.lookup k = some c := by
  obtain ⟨m, ⟨n, hle, hm⟩, hc⟩ := h
  obtain hm | ⟨t, a, rfl, rfl⟩ | ⟨-, rfl⟩ := (effect hs).memAt_back hm
  · exact .inl ⟨m, ⟨n, hb ▸ hle, hm⟩, hc⟩
  · exact .inr ⟨t, a, rfl, hc⟩
  · simp at hc

/-- A process that begins has shown nothing. -/
theorem not_showed_of_booting (hi : Inv cfg s) (hs : apply (.started .boot .new) s = some s') :
    ¬ s'.Showed k c := by
  rintro ⟨m, ⟨n, hle, hm⟩, hc⟩
  obtain ⟨-, -, hdown, -, rfl⟩ | ⟨hb, -⟩ := apply_started hs
  · obtain rfl : n = s.instant := le_antisymm (State.memAt_le hm) hle
    have hm' : s.memAt s.instant = some m := hm
    rw [State.memAt_instant, hi.down hdown] at hm'
    cases hm'
    simp at hc
  · exact absurd rfl hb

/-- The row of a key is one this process has shown. -/
theorem Inv.showed_row (hi : Inv cfg s) (hc : s.row k = some c) : s.Showed k c :=
  ⟨s.mem, ⟨s.instant, hi.born, s.memAt_instant⟩, hc⟩

/-- **Where the start time of a row comes from.** -/
inductive DatedBy (s : State) (ev : Ev) (c : Claim) : Prop where
  | shown {k c₀} : s.Showed k c₀ → c₀.id = c.id → c₀.claimedAt = c.claimedAt → DatedBy s ev c
  | fresh {t k pod} : ev = .locked t (.insertClaim k pod c) → s.Unseen c.id →
      second ≤ c.claimedAt → DatedBy s ev c
  | loaded {st now k c₀} : ev = .locked .boot (.load st now) → second ≤ now →
      s.content.claims.lookup k = some c₀ →
      c = (if c₀.claimedAt = 0 then { c₀ with claimedAt := now } else c₀) → DatedBy s ev c

theorem State.Showed.datedBy (h : s'.Showed k c) (hi : Inv cfg s) (hg : Guard cfg ev s)
    (hs : apply ev s = some s') (hb : s'.ledger.born = s.ledger.born) : DatedBy s ev c := by
  obtain h | ⟨t, a, rfl, hc⟩ := h.back hs hb
  · exact .shown h rfl rfl
  obtain ⟨c₀, h₀, hedit⟩ | hcr := Section.row_edit hc
  · exact .shown (hi.showed_row h₀) hedit.same.id.symm hedit.same.claimedAt.symm
  · cases a with
    | load st now =>
      obtain ⟨-, rfl, -, hfile, -, -, hnow, -⟩ := hg
      simp only [Section.Creates, Memory.load, Table.lookup_pick, Option.bind_eq_some_iff,
        Option.some.injEq] at hcr
      obtain ⟨c₀, h₀, rfl⟩ := hcr
      have hdisk : s.content.claims.lookup k = some c₀ := by
        rw [State.content, hfile]
        exact h₀
      exact .loaded rfl hnow hdisk rfl
    | insertClaim key pod c₀ =>
      obtain ⟨rfl, rfl⟩ := hcr
      obtain ⟨-, -, -, -, -, res, now, hres, rfl, hnow⟩ := hg
      exact .fresh rfl (hi.hand hres).2.2.2.2 hnow
    | _ => exact hcr.elim

theorem id_backfill (c : Claim) (now : Time) :
    (if c.claimedAt = 0 then { c with claimedAt := now } else c).id = c.id := by
  split <;> rfl

/-- Before its load a process has shown nothing. -/
theorem not_showed_of_load {st : StateFile} {now : Time}
    (hg : Guard cfg (.locked .boot (.load st now)) s) : ¬ s.Showed k c := by
  rintro ⟨m, ⟨n, hle, hm⟩, hc⟩
  obtain ⟨-, -, hmem, -, -, -, -, -, hborn⟩ := hg
  obtain rfl : n = s.instant := le_antisymm (State.memAt_le hm) (hborn ▸ hle)
  rw [State.memAt_instant, hmem] at hm
  cases hm
  simp at hc

/-- Two rows of one sandbox have one start time, wherever they come from. -/
theorem DatedBy.sameDate (h : Dates cfg s) (hg : Guard cfg ev s) (hc : DatedBy s ev c)
    (hc' : DatedBy s ev c') (he : c.id = c'.id) : SameDate c c' := by
  cases hc with
  | shown h₀ hid hat =>
    cases hc' with
    | shown h₀' hid' hat' =>
      exact (h.rows h₀ h₀' (hid.trans (he.trans hid'.symm))).of_eq hat.symm hat'.symm
    | fresh _ hu _ =>
      obtain ⟨m, ⟨n, -, hm⟩, hrow⟩ := h₀
      exact absurd (hid.trans he) (hu.2 ⟨n, hm⟩ (Memory.holds_row hrow))
    | loaded hev => subst hev; exact absurd h₀ (not_showed_of_load hg)
  | fresh hev hu hle =>
    cases hc' with
    | shown h₀ hid =>
      obtain ⟨m, ⟨n, -, hm⟩, hrow⟩ := h₀
      exact absurd (hid.trans he.symm) (hu.2 ⟨n, hm⟩ (Memory.holds_row hrow))
    | fresh hev' => subst hev; cases hev'; exact .refl hle
    | loaded hev' => subst hev; cases hev'
  | loaded hev hnow h₀ hbf =>
    cases hc' with
    | shown h₁ => subst hev; exact absurd h₁ (not_showed_of_load hg)
    | fresh hev' => subst hev; cases hev'
    | loaded hev' _ h₀' hbf' =>
      subst hev
      cases hev'
      obtain ⟨-, -, -, -, -, hsp, -⟩ := hg
      rw [hbf, hbf', id_backfill, id_backfill] at he
      obtain ⟨hz, hz'⟩ | hd := h.file hsp h₀ h₀' he
      · rw [if_pos hz] at hbf
        rw [if_pos hz'] at hbf'
        subst hbf hbf'
        exact ⟨hnow, hnow, rfl⟩
      · rw [if_neg (SameDate.ne_zero hd.left)] at hbf
        rw [if_neg (SameDate.ne_zero hd.right)] at hbf'
        subst hbf hbf'
        exact hd

namespace Dates

/-- A row of a version the lock holder may put on disk is one this process has shown. -/
theorem showed_draft (h : Dates cfg s) (hmu : s.saveMu = some t) {d : Draft}
    (hren : RenameGuard s t d) (hc : d.st.claims.lookup k = some c) :
    ∃ c₀, s.Showed k c₀ ∧ c = c₀.marshal := by
  obtain ⟨m, c₀, hm, h₀, rfl⟩ := hren.row hc
  have hborn := h.saving (by rw [hmu]; rfl)
  exact ⟨c₀, ⟨m, ⟨d.instant, hborn.trans hren.since, hm⟩, h₀⟩, rfl⟩

theorem step_file (h : Dates cfg s) (hg : Guard cfg ev s) (hs : apply ev s = some s')
    (hp : cfg.statePath) : s'.content.Dated := by
  obtain ⟨hf, -⟩ | ⟨t, u, d, rfl, hd, hf, -⟩ := (effect hs).file
  · rw [State.content, hf]
    exact h.file hp
  · obtain ⟨hmu, -, d', hren⟩ := hg.2
    obtain rfl : d' = d := Option.some.inj (hren.tmp.symm.trans hd)
    rw [State.content, hf]
    intro k k' c c' hc hc' hid
    obtain ⟨c₀, h₀, rfl⟩ := h.showed_draft hmu hren hc
    obtain ⟨c₀', h₀', rfl⟩ := h.showed_draft hmu hren hc'
    exact .inr (h.rows h₀ h₀' hid).marshal_left.marshal_right

theorem step_saving (h : Dates cfg s) (hi : Inv cfg s) (hl : SaverLive s)
    (hs : apply ev s = some s') (hsome : s'.saveMu.isSome) :
    s'.ledger.born ≤ s'.ledger.savingSince := by
  obtain ⟨hm, hv⟩ | ⟨t, rfl, -, -, hv⟩ | ⟨t, -, -, hm⟩ | rfl := (effect hs).saveMu
  · rw [hv]
    rw [hm] at hsome
    obtain hb | ⟨rfl, -⟩ := (effect hs).born
    · rw [hb]
      exact h.saving hsome
    · -- nobody holds the lock of a process that is down
      obtain ⟨t, ht⟩ := Option.isSome_iff_exists.mp hsome
      have hlive := hl ht
      obtain ⟨-, -, hdown, -⟩ | ⟨hb, -⟩ := apply_started hs
      · cases t <;> exact absurd (hdown.symm.trans hlive) (by decide)
      · exact absurd rfl hb
  · rw [hv]
    obtain hb | ⟨hev, -⟩ := (effect hs).born
    · rw [hb]
      exact hi.born
    · cases hev
  · rw [hm] at hsome
    cases hsome
  · simp only [apply] at hs
    split at hs
    · cases hs
    · cases hs
      cases hsome

theorem step (h : Dates cfg s) (hi : Inv cfg s) (hl : SaverLive s) (hg : Guard cfg ev s)
    (hs : apply ev s = some s') : Dates cfg s' where
  rows := fun hc hc' hid => by
    obtain hb | ⟨rfl, -⟩ := (effect hs).born
    · exact DatedBy.sameDate h hg (hc.datedBy hi hg hs hb) (hc'.datedBy hi hg hs hb) hid
    · exact absurd hc (not_showed_of_booting hi hs)
  file := h.step_file hg hs
  saving := h.step_saving hi hl hs

theorem initial {file : File} (hf : file.content.Dated) : Dates cfg (State.initial file) where
  rows := fun hc => by
    obtain ⟨m, ⟨n, -, hm⟩, hc⟩ := hc
    obtain rfl : m = {} := by
      cases n with
      | zero => exact (Option.some.inj hm).symm
      | succ n => cases hm
    simp at hc
  file := fun _ => hf
  saving := fun h => by cases h

end Dates

/-- **Once the provider is up, the file is of this process.** -/
def Rewritten (cfg : Config) (s : State) : Prop :=
  cfg.statePath → s.phase = .up → ∃ n, s.disk.instant = some n ∧ s.ledger.born ≤ n

theorem Rewritten.step (h : Rewritten cfg s) (hg : Guard cfg ev s) (hs : apply ev s = some s') :
    Rewritten cfg s' := by
  intro hp hup
  obtain hph | ⟨-, -, hph⟩ | ⟨op, rfl, -⟩ | ⟨-, hph⟩ := (effect hs).phase
  · obtain ⟨n, hn, hle⟩ := h hp (hph.symm.trans hup)
    obtain ⟨n', hn', hle'⟩ := (effect hs).diskInstant_le hg hn
    obtain hb | ⟨rfl, -⟩ := (effect hs).born
    · exact ⟨n', hn', by rw [hb]; exact hle.trans hle'⟩
    · obtain ⟨-, -, hdown, -⟩ | ⟨hb, -⟩ := apply_started hs
      · exact absurd (hdown.symm.trans (hph.symm.trans hup)) (by decide)
      · exact absurd rfl hb
  · rw [hph] at hup
    cases hup
  · obtain ⟨-, -, -, hret, -⟩ := hg
    obtain ⟨-, -, n, hn, hle, -⟩ := hret hp
    cases hs
    exact ⟨n, hn, hle⟩
  · rw [hph] at hup
    cases hup

/-! ## Runs -/

section Runs

variable {file : File} {tr : List Ev}
  {x y : Interleave.Config State Memory Section Request Reply Tid Op Outcome}

theorem Runs.dates (h : Runs cfg file tr x) (hf : file.content.Dated) : Dates cfg x.shared := by
  refine (h.guarded.invariant (sound cfg) (inv_initial cfg file)
    (J := fun s => SaverLive s ∧ Dates cfg s) ⟨fun ht => (by cases ht), .initial hf⟩ ?_).2
  rintro ev s s' hi ⟨hlive, hj⟩ hg hs
  exact ⟨hlive.step hg hs, hj.step hi hlive hg hs⟩

theorem Runs.rewritten (h : Runs cfg file tr x) : Rewritten cfg x.shared :=
  h.guarded.invariant (sound cfg) (inv_initial cfg file) (fun _ hup => by cases hup)
    fun _ _ _ _ hj hg hs => hj.step hg hs

/-- **What the provider shows while it is up is dated for good**: every row of that sandbox, from
the start of this process on and in the file, has its start time. -/
theorem Runs.upheld_date (h : Runs cfg file tr x) (hf : file.content.Dated)
    (hup : x.shared.phase = .up) (hc : x.shared.Showed k c) :
    Upheld cfg x.shared.ledger.born (fun _ c' => c.id = c'.id → SameDate c c') x.shared where
  seen := fun hle hm hrow hid => (h.dates hf).rows hc ⟨_, ⟨_, hle, hm⟩, hrow⟩ hid
  le := h.inv.born
  file := fun hp {k' c'} hrow hid => by
    obtain ⟨n, hn, hle⟩ := h.rewritten hp hup
    obtain ⟨m, committing, hm, hfile, -⟩ := h.projected.written n hn
    rw [State.content, hfile] at hrow
    simp only [File.content, StateFile.marshal, Table.lookup_pick, Option.bind_eq_some_iff,
      Option.some.injEq] at hrow
    obtain ⟨c₀, h₀, rfl⟩ := hrow
    have hshow : x.shared.Showed k' c₀ := ⟨m, ⟨n, hle, hm⟩, (Memory.lookup_snapshot.mp h₀).1⟩
    exact ((h.dates hf).rows hc hshow hid).marshal_right
  caught := fun _ => .inr (h.dates hf).saving

theorem Runs.upheld_after {tr' : List Ev} (h : Runs cfg file tr x) (hf : file.content.Dated)
    (h' : Run (machine cfg) x tr' y) (hup : x.shared.phase = .up) (hc : x.shared.Showed k c) :
    Upheld cfg x.shared.ledger.born (fun _ c' => c.id = c'.id → SameDate c c') y.shared ∧
      (∃ m, y.shared.Seen m ∧ m.claims.lookup k = some c) ∧
      x.shared.ledger.born ≤ y.shared.ledger.born := by
  induction h' with
  | nil =>
    refine ⟨h.upheld_date hf hup hc, ?_, le_rfl⟩
    obtain ⟨m, ⟨n, -, hm⟩, hrow⟩ := hc
    exact ⟨m, ⟨n, hm⟩, hrow⟩
  | @snoc tr₁ x₁ ev x₂ h₁ hs ih =>
    obtain ⟨hu, ⟨m, ⟨n, hm⟩, hrow⟩, hle⟩ := ih
    have hrun : Runs cfg file (tr ++ tr₁) x₁ := Run.append h h₁
    obtain ⟨hg, ha⟩ := hrun.next hs
    refine ⟨hu.step (fun hq hid => (hq hid).marshal_right) hg ha ⟨?_, ?_, ?_⟩,
      ⟨m, ⟨n, (effect ha).memAt hm⟩, hrow⟩, ?_⟩
    · intro t a k' c₁ c₂ _ _ hedit hq hid
      exact (hq (hid.trans hedit.same.id)).of_eq rfl hedit.same.claimedAt
    · intro t st now k' c₁ _ hq hid
      rw [id_backfill] at hid
      rw [if_neg (SameDate.ne_zero (hq hid).right)]
      exact hq hid
    · rintro t k' pod c₁ rfl hid
      obtain ⟨-, -, -, -, -, res, now, hres, rfl, -⟩ := hg
      exact absurd hid ((hrun.inv.hand hres).2.2.2.2.2 ⟨n, hm⟩ (Memory.holds_row hrow))
    · obtain hb | ⟨-, hb⟩ := (effect ha).born
      · rw [hb]
        exact hle
      · rw [hb]
        exact hle.trans hrun.inv.born

/-! ## The statuses -/

/-- **A status served for the sandbox `id`**: an answer of `GetPodStatus` about a settled claim, or
a notification built from a row the provider has had at that key. -/
inductive Served (cfg : Config)
    (x : Interleave.Config State Memory Section Request Reply Tid Op Outcome) (id : String) :
    PodStatus → Prop where
  | returned {now ns name st c} : x.shared.phase = .up →
      getPodStatus cfg.platform x.shared.mem now ns name = some st → st.phase ≠ .pending →
      x.shared.mem.claimFor (podKey ns name) = some c → c.id = id → Served cfg x id st
  | notified {t pod c p x'} : Step (machine cfg) x (.asked t (.notify pod) ()) x' →
      x.shared.Showed pod.key c → c.id = id →
      pod = runningPod p c ∨ pod = expiredPod cfg.platform p c →
      Served cfg x id pod.status

/-- It carries the start time of the row. -/
theorem Runs.served {id : String} {st : PodStatus} (h : Runs cfg file tr x)
    (hst : Served cfg x id st) :
    x.shared.phase = .up ∧ ∃ k c, x.shared.Showed k c ∧ c.id = id ∧
      st.startTime = some c.claimedAt := by
  cases hst with
  | returned hup hget hph hc hid =>
    refine ⟨hup, _, _, h.inv.showed_row (Memory.claimFor_eq_some.mp hc).2, hid, ?_⟩
    simp only [getPodStatus, hc] at hget
    split at hget
    · cases hget
    · cases hget
      split <;> rfl
  | notified hstep hc hid hpod =>
    obtain ⟨⟨hlive, -, -, _, _, -, ht⟩, -⟩ := h.next hstep
    refine ⟨hlive.eq_up ?_, _, _, hc, hid, by rcases hpod with rfl | rfl <;> rfl⟩
    rintro rfl
    obtain ⟨-, ht⟩ | ⟨-, _, ht⟩ := ht <;> cases ht

/-- **The start time of a sandbox never moves**, whatever happens between two statuses of it, if the
table the first process found has usable times.  Every notification is such a status, and every
answer of `GetPodStatus` that is not pending. -/
theorem start_time_fixed {tr' : List Ev} (h : Runs cfg file tr x) (hf : file.content.Dated)
    (h' : Run (machine cfg) x tr' y) :
    (∀ t pod x', Step (machine cfg) x (.asked t (.notify pod) ()) x' →
      ∃ id, Served cfg x id pod.status) ∧
    (∀ now ns name st, x.shared.phase = .up →
      getPodStatus cfg.platform x.shared.mem now ns name = some st → st.phase ≠ .pending →
      ∃ id, Served cfg x id st) ∧
    ∀ id st st', Served cfg x id st → Served cfg y id st' →
      ∃ i i', st.startTime = some i ∧ st'.startTime = some i' ∧
        wholeSeconds i = wholeSeconds i' := by
  refine ⟨?_, ?_, ?_⟩
  · intro t pod x' hstep
    obtain ⟨⟨-, -, -, c, p, hshow, hpod⟩, -⟩ := h.next hstep
    exact ⟨c.id, .notified hstep hshow rfl (hpod.imp And.left And.left)⟩
  · intro now ns name st hup hget hph
    obtain ⟨c, hc⟩ := claimFor_of_getPodStatus hget hph
    exact ⟨c.id, .returned hup hget hph hc rfl⟩
  · intro id st st' hst hst'
    obtain ⟨hup, k, c, hc, rfl, hstart⟩ := h.served hst
    have hrun : Runs cfg file (tr ++ tr') y := Run.append h h'
    obtain ⟨-, k', c', ⟨m, ⟨n, hle, hm⟩, hrow⟩, hid, hstart'⟩ := hrun.served hst'
    obtain ⟨hu, -, hborn⟩ := h.upheld_after hf h' hup hc
    exact ⟨_, _, hstart, hstart', (hu.seen (hborn.trans hle) hm hrow hid.symm).eq⟩

theorem dated_sampleFile (h : c.claimedAt = 0 ∨ second ≤ c.claimedAt) : (sampleFile k c).Dated := by
  have hrow : ∀ {k' c'}, (sampleFile k c).claims.lookup k' = some c' → c' = c := by
    intro k' c' hc
    simp only [sampleFile, Table.lookup_insert] at hc
    split at hc
    · exact (Option.some.inj hc).symm
    · simp at hc
  intro k₁ k₂ c₁ c₂ h₁ h₂ _
  rw [hrow h₁, hrow h₂]
  exact h.imp (fun hz => ⟨hz, hz⟩) SameDate.refl

/-- A row of an older table without a start time, across a restart: loaded at 5.7 s, it says 5 s
after the restart. -/
theorem start_time_fixed_of_older_table : ∃ tr x tr' y st st',
    Runs fullConfig (.table (sampleFile "ns/p"
      { sampleClaim "s1" (samplePod "p" "u1" []) with claimedAt := 0 })) tr x ∧
    Run (machine fullConfig) x tr' y ∧ Served fullConfig x "s1" st ∧
    Served fullConfig y "s1" st' ∧ st.startTime ≠ st'.startTime ∧
    ∃ i i', st.startTime = some i ∧ st'.startTime = some i' ∧ wholeSeconds i = wholeSeconds i' := by
  let legacy : Claim := { sampleClaim "s1" (samplePod "p" "u1" []) with claimedAt := 0 }
  let found : Claim := { legacy with claimedAt := 5 * second + 700000000 }
  obtain ⟨tr, x, tr', y, h, h', ⟨hup, hget, hc⟩, hup', hget', hc'⟩ :=
    exists_continuation fullConfig (.table (sampleFile "ns/p" legacy))
      (call .boot .new 15
          { file := .decoded (sampleFile "ns/p" legacy)
            listed := .ok [sampleSummary "s1"]
            now := 5 * second + 700000000 } ++
        call (.lifecycle "ns/p") (.createPod (samplePod "p" "u1" [])) 12 {})
      (.crash :: call .boot .new 15
          { file := .decoded (sampleFile "ns/p" (sampleClaim "s1" (samplePod "p" "u1" [])))
            listed := .ok [sampleSummary "s1"]
            now := 9 * second } ++
        call (.lifecycle "ns/p") (.createPod (samplePod "p" "u1" [])) 12 {})
      (fun s s' =>
        (s.phase = .up ∧ getPodStatus fullConfig.platform s.mem (5 * second) "ns" "p" =
          some (runningStatus (samplePod "p" "u1" []) found) ∧ s.mem.claimFor "ns/p" = some found) ∧
        s'.phase = .up ∧ getPodStatus fullConfig.platform s'.mem (5 * second) "ns" "p" =
          some (runningStatus (samplePod "p" "u1" []) (sampleClaim "s1" (samplePod "p" "u1" []))) ∧
        s'.mem.claimFor "ns/p" = some (sampleClaim "s1" (samplePod "p" "u1" [])))
      (by decide +kernel)
  have hst : Served fullConfig x "s1" (runningStatus (samplePod "p" "u1" []) found) :=
    .returned hup hget (by decide) hc rfl
  have hst' : Served fullConfig y "s1"
      (runningStatus (samplePod "p" "u1" []) (sampleClaim "s1" (samplePod "p" "u1" []))) :=
    .returned hup' hget' (by decide) hc' rfl
  exact ⟨tr, x, tr', y, _, _, h, h', hst, hst', by decide,
    (start_time_fixed h (dated_sampleFile (.inl rfl)) h').2.2 _ _ _ hst hst'⟩

/-- A start time in the first second of year 1 is written as the zero time, which a restart takes
for a missing one. -/
theorem start_time_moves : ∃ tr x tr' y st st' i i',
    Runs fullConfig (.table (sampleFile "ns/p"
      { sampleClaim "s1" (samplePod "p" "u1" []) with claimedAt := 700000000 })) tr x ∧
    Run (machine fullConfig) x tr' y ∧ Served fullConfig x "s1" st ∧
    Served fullConfig y "s1" st' ∧
    st.startTime = some i ∧ st'.startTime = some i' ∧ wholeSeconds i ≠ wholeSeconds i' := by
  let odd : Claim := { sampleClaim "s1" (samplePod "p" "u1" []) with claimedAt := 700000000 }
  let late : Claim := { sampleClaim "s1" (samplePod "p" "u1" []) with claimedAt := 9 * second }
  obtain ⟨tr, x, tr', y, h, h', ⟨hup, hget, hc⟩, hup', hget', hc'⟩ :=
    exists_continuation fullConfig (.table (sampleFile "ns/p" odd))
      (call .boot .new 15
          { file := .decoded (sampleFile "ns/p" odd)
            listed := .ok [sampleSummary "s1"] } ++
        call (.lifecycle "ns/p") (.createPod (samplePod "p" "u1" [])) 12 {})
      (.crash :: call .boot .new 15
          { file := .decoded (sampleFile "ns/p"
              { sampleClaim "s1" (samplePod "p" "u1" []) with claimedAt := 0 })
            listed := .ok [sampleSummary "s1"]
            now := 9 * second } ++
        call (.lifecycle "ns/p") (.createPod (samplePod "p" "u1" [])) 12 {})
      (fun s s' =>
        (s.phase = .up ∧ getPodStatus fullConfig.platform s.mem (5 * second) "ns" "p" =
          some (runningStatus (samplePod "p" "u1" []) odd) ∧ s.mem.claimFor "ns/p" = some odd) ∧
        s'.phase = .up ∧ getPodStatus fullConfig.platform s'.mem (5 * second) "ns" "p" =
          some (runningStatus (samplePod "p" "u1" []) late) ∧ s'.mem.claimFor "ns/p" = some late)
      (by decide +kernel)
  exact ⟨tr, x, tr', y, _, _, 700000000, 9 * second, h, h',
    .returned hup hget (by decide) hc rfl, .returned hup' hget' (by decide) hc' rfl,
    rfl, rfl, by decide⟩

end Runs

end VkSandbox
