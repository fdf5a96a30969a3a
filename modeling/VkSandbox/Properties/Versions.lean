import VkSandbox.Provider.Effects

/-!
# Properties/Versions — what holds of a row in every version

A row lives in many versions: the tables now, the tables at every earlier instant, the file, the
tables a restart reads from the file.  `RowsFrom n Q` says that all of them, from the instant `n`
on, satisfy `Q`.  Times aside, a row changes only when it changes hands, so a `Q` that does not look
at times has to be shown for the three sections in which it does (`KeptBy`); restarts and writes
then come for free.
-/

namespace VkSandbox

open Interleave

variable {cfg : Config} {s s' : State} {t : Tid} {k : Key} {c : Claim} {n : ℕ}
  {Q Q' : Key → Claim → Prop} {R R' : Claim → Prop}

/-- A property of rows that does not look at times. -/
structure Lasting (Q : Key → Claim → Prop) : Prop where
  deadline : ∀ {k c} d, Q k c → Q k { c with deadline := d }
  claimedAt : ∀ {k c} i, Q k c → Q k { c with claimedAt := i }

theorem Lasting.marshal (hQ : Lasting Q) (h : Q k c) : Q k c.marshal :=
  hQ.deadline (wholeSeconds c.deadline) (hQ.claimedAt (wholeSeconds c.claimedAt) h)

/-! ## Rows -/

/-- **Every version of every row**, from the instant `n` on and in the file, satisfies `Q`. -/
structure RowsFrom (n : ℕ) (Q : Key → Claim → Prop) (s : State) : Prop where
  seen : ∀ {i m k c}, n ≤ i → s.memAt i = some m → m.claims.lookup k = some c → Q k c
  file : ∀ {k c}, s.content.claims.lookup k = some c → Q k c
  caught : n = 0 ∨ ∃ i, s.disk.instant = some i ∧ n ≤ i

/-- What an event must do for `Q` when it hands a row on. -/
structure KeptBy (Q : Key → Claim → Prop) (ev : Ev) (s : State) : Prop where
  rebind : ∀ {t k pod c}, ev = .locked t (.adoptExistingClaim k pod) → s.row k = some c →
    s.mem.settled k → c.adoptableBy pod → Q k c → Q k (c.rebind pod)
  preserve : ∀ {t k c owner}, ev = .locked t (.preserveClaim k c.id owner) → s.row k = some c →
    Q k c → Q k { c with owner := owner }
  insert : ∀ {t k pod c}, ev = .locked t (.insertClaim k pod c) → Q k c

theorem RowsFrom.instant_le (h : RowsFrom n Q s) (hi : Inv cfg s) : n ≤ s.instant := by
  obtain rfl | ⟨i, hd, hle⟩ := h.caught
  · exact Nat.zero_le _
  · exact hle.trans (hi.diskInstant hd)

theorem RowsFrom.row (h : RowsFrom n Q s) (hi : Inv cfg s) (hc : s.row k = some c) : Q k c :=
  h.seen (h.instant_le hi) s.memAt_instant hc

theorem RowsFrom.mono (h : RowsFrom n Q s) (hQ : ∀ {k c}, Q k c → Q' k c) : RowsFrom n Q' s :=
  ⟨fun hle hm hc => hQ (h.seen hle hm hc), fun hc => hQ (h.file hc), h.caught⟩

/-- A row of a draft is a row of the version it was taken from. -/
theorem RenameGuard.row {d : Draft} (h : RenameGuard s t d) (hc : d.st.claims.lookup k = some c) :
    ∃ m c₀, s.memAt d.instant = some m ∧ m.claims.lookup k = some c₀ ∧ c = c₀.marshal := by
  obtain ⟨m, committing, hm, hst, -⟩ := h.snapshot
  simp only [hst, StateFile.marshal, Table.lookup_pick, Option.bind_eq_some_iff,
    Option.some.injEq] at hc
  obtain ⟨c₀, h₀, rfl⟩ := hc
  exact ⟨m, c₀, hm, (Memory.lookup_snapshot.mp h₀).1, rfl⟩

/-- So is a queued claim of a draft. -/
theorem RenameGuard.queued {d : Draft} (h : RenameGuard s t d) (hc : c ∈ d.st.releasing) :
    ∃ m, s.memAt d.instant = some m ∧ ∃ c₀ ∈ m.releasing, c = c₀.marshal := by
  obtain ⟨m, committing, hm, hst, -⟩ := h.snapshot
  rw [hst] at hc
  obtain ⟨c₀, h₀, rfl⟩ := List.mem_map.mp hc
  exact ⟨m, hm, c₀, h₀, rfl⟩

/-- A draft is no older than the file. -/
theorem RenameGuard.caught {d : Draft} (h : RenameGuard s t d)
    (hc : n = 0 ∨ ∃ i, s.disk.instant = some i ∧ n ≤ i) : n ≤ d.instant := by
  obtain rfl | ⟨i, hi, hle⟩ := hc
  · exact Nat.zero_le _
  · exact hle.trans (h.later i hi)

/-- The rows of the version a section makes. -/
theorem RowsFrom.locked {a : Section} (hQ : Lasting Q) (h : RowsFrom n Q s) (hi : Inv cfg s)
    (hg : SectionGuard cfg s t a) (hk : KeptBy Q (.locked t a) s)
    (hc : (a.run s.mem).claims.lookup k = some c) : Q k c := by
  obtain ⟨c₀, h₀, hedit⟩ | hcr := Section.row_edit hc
  · have hq := h.row hi h₀
    cases hedit with
    | deadline d => exact hQ.deadline d hq
    | rebind ha hs had =>
      subst ha
      exact hk.rebind rfl h₀ hs had hq
    | preserve ha =>
      subst ha
      exact hk.preserve rfl h₀ hq
  · cases a with
    | load st now =>
      obtain ⟨c₀, at₀, h₀, rfl⟩ := Memory.row_load hcr
      refine hQ.claimedAt at₀ (h.file ?_)
      rw [State.content, hg.2.2.1]
      exact h₀
    | insertClaim key pod c₀ =>
      obtain ⟨rfl, rfl⟩ := hcr
      exact hk.insert rfl
    | _ => exact hcr.elim

/-- **The rule for rows**: an event that keeps `Q` where it hands a row on keeps it everywhere. -/
theorem RowsFrom.step {ev : Ev} (hQ : Lasting Q) (h : RowsFrom n Q s) (hi : Inv cfg s)
    (hg : Guard cfg ev s) (hs : apply ev s = some s') (hk : KeptBy Q ev s) : RowsFrom n Q s' where
  seen := fun {i m k c} hle hm hc => by
    obtain hm | ⟨t, a, rfl, rfl⟩ | ⟨-, rfl⟩ := (effect hs).memAt_back hm
    · exact h.seen hle hm hc
    · exact h.locked hQ hi hg.2 hk hc
    · simp at hc
  file := fun {k c} hc => by
    obtain ⟨hf, -⟩ | ⟨t, u, d, rfl, hd, hf, -⟩ := (effect hs).file
    · rw [State.content, hf] at hc
      exact h.file hc
    · obtain ⟨-, -, d', hren⟩ := hg.2
      obtain rfl : d' = d := Option.some.inj (hren.tmp.symm.trans hd)
      rw [State.content, hf] at hc
      obtain ⟨m, c₀, hm, h₀, rfl⟩ := hren.row hc
      exact hQ.marshal (h.seen (hren.caught h.caught) hm h₀)
  caught := by
    obtain h0 | ⟨i, hd, hle⟩ := h.caught
    · exact .inl h0
    · obtain ⟨i', hd', hle'⟩ := (effect hs).diskInstant_le hg hd
      exact .inr ⟨i', hd', hle.trans hle'⟩

/-! ## From an instant on

`RowsFrom` asks the file for more than a provider without a state path can say.  `Upheld` asks it
only where it will be read again; in return it may be claimed at any moment. -/

/-- **`Q` holds of every row from the instant `n` on**: of the file too, if it will be read again,
and of what a save in progress may put there. -/
structure Upheld (cfg : Config) (n : ℕ) (Q : Key → Claim → Prop) (s : State) : Prop where
  seen : ∀ {i m k c}, n ≤ i → s.memAt i = some m → m.claims.lookup k = some c → Q k c
  le : n ≤ s.instant
  file : cfg.statePath → ∀ {k c}, s.content.claims.lookup k = some c → Q k c
  caught : cfg.statePath → (∃ i, s.disk.instant = some i ∧ n ≤ i) ∨
    (s.saveMu.isSome → n ≤ s.ledger.savingSince)

/-- What an event must do for `Q` when it changes a row. -/
structure UpheldBy (Q : Key → Claim → Prop) (ev : Ev) (s : State) : Prop where
  edit : ∀ {t a k c c'}, ev = .locked t a → s.row k = some c → a.Edits s.mem k c c' → Q k c → Q k c'
  load : ∀ {t st now k c}, ev = .locked t (.load st now) → Q k c →
    Q k (if c.claimedAt = 0 then { c with claimedAt := now } else c)
  insert : ∀ {t k pod c}, ev = .locked t (.insertClaim k pod c) → Q k c

theorem Upheld.row (h : Upheld cfg n Q s) (hc : s.row k = some c) : Q k c :=
  h.seen h.le s.memAt_instant hc

theorem Upheld.locked {a : Section} (h : Upheld cfg n Q s) (hg : SectionGuard cfg s t a)
    (hk : UpheldBy Q (.locked t a) s) (hc : (a.run s.mem).claims.lookup k = some c) : Q k c := by
  obtain ⟨c₀, h₀, hedit⟩ | hcr := Section.row_edit hc
  · exact hk.edit rfl h₀ hedit (h.row h₀)
  · cases a with
    | load st now =>
      simp only [Section.run, Memory.load, Table.lookup_pick, Option.bind_eq_some_iff,
        Option.some.injEq] at hc
      obtain ⟨c₀, h₀, rfl⟩ := hc
      refine hk.load rfl (h.file hg.2.2.2.2.1 ?_)
      rw [State.content, hg.2.2.1]
      exact h₀
    | insertClaim key pod c₀ =>
      obtain ⟨rfl, rfl⟩ := hcr
      exact hk.insert rfl
    | _ => exact hcr.elim

/-- **The rule for rows from an instant on.** -/
theorem Upheld.step {ev : Ev} (hmarshal : ∀ {k c}, Q k c → Q k c.marshal) (h : Upheld cfg n Q s)
    (hg : Guard cfg ev s) (hs : apply ev s = some s') (hk : UpheldBy Q ev s) :
    Upheld cfg n Q s' where
  seen := fun {i m k c} hle hm hc => by
    obtain hm | ⟨t, a, rfl, rfl⟩ | ⟨-, rfl⟩ := (effect hs).memAt_back hm
    · exact h.seen hle hm hc
    · exact h.locked hg.2 hk hc
    · simp at hc
  le := h.le.trans (effect hs).instant_le
  file := fun hp {k c} hc => by
    obtain ⟨hf, -⟩ | ⟨t, u, d, rfl, hd, hf, -⟩ := (effect hs).file
    · rw [State.content, hf] at hc
      exact h.file hp hc
    · obtain ⟨hmu, -, d', hren⟩ := hg.2
      obtain rfl : d' = d := Option.some.inj (hren.tmp.symm.trans hd)
      rw [State.content, hf] at hc
      obtain ⟨m, c₀, hm, h₀, rfl⟩ := hren.row hc
      have hle : n ≤ d'.instant := by
        obtain ⟨i, hi, hle⟩ | hsave := h.caught hp
        · exact hle.trans (hren.later i hi)
        · exact (hsave (by rw [hmu]; rfl)).trans hren.since
      exact hmarshal (h.seen hle hm h₀)
  caught := fun hp => by
    obtain ⟨i, hi, hle⟩ | hsave := h.caught hp
    · obtain ⟨i', hi', hle'⟩ := (effect hs).diskInstant_le hg hi
      exact .inl ⟨i', hi', hle.trans hle'⟩
    refine .inr fun hsome => ?_
    obtain ⟨hm, hv⟩ | ⟨t, -, -, -, hv⟩ | ⟨t, -, -, hm⟩ | rfl := (effect hs).saveMu
    · rw [hv]
      exact hsave (hm ▸ hsome)
    · rw [hv]
      exact h.le
    · rw [hm] at hsome
      cases hsome
    · simp only [apply] at hs
      split at hs
      · cases hs
      · cases hs
        cases hsome

/-! ## The release queue -/

/-- **Every queued claim**, in every version and in the file, satisfies `R`. -/
structure Queued (R : Claim → Prop) (s : State) : Prop where
  seen : ∀ {m c}, s.Seen m → c ∈ m.releasing → R c
  file : ∀ {c}, c ∈ s.content.releasing → R c

theorem Queued.mono (h : Queued R s) (hR : ∀ {c}, R c → R' c) : Queued R' s :=
  ⟨fun hm hc => hR (h.seen hm hc), fun hc => hR (h.file hc)⟩

/-- **The rule for the queue**: what a row is queued for must be seen when it is. -/
theorem Queued.step {ev : Ev} (hR : ∀ {c}, R c → R c.marshal) (h : Queued R s)
    (hg : Guard cfg ev s) (hs : apply ev s = some s')
    (hsup : ∀ {t k pod c}, ev = .locked t (.adoptExistingClaim k pod) → s.row k = some c →
      s.mem.settled k → c.adoptableBy pod = false → R c)
    (hwith : ∀ {t k c cur}, ev = .locked t (.withdrawForRelease k c) → s.row k = some cur →
      cur.id = c.id → R c) : Queued R s' where
  seen := fun {m c} hm hc => by
    obtain hm | ⟨t, a, rfl, rfl⟩ | ⟨-, rfl⟩ := (effect hs).seen hm
    · exact h.seen hm hc
    · obtain hc | ⟨st, now, rfl, hst⟩ | ⟨key, pod, rfl, hrow, hset, had⟩ | ⟨key, rfl, hw⟩ :=
        Section.releasing_back hc
      · exact h.seen s.seen_mem hc
      · refine h.file ?_
        rw [State.content, hg.2.2.2.1]
        exact hst
      · exact hsup rfl hrow hset had
      · obtain ⟨cur, hcur, he, -⟩ := Memory.withdrawable_iff.mp hw
        exact hwith rfl hcur he
    · cases hc
  file := fun {c} hc => by
    obtain ⟨hf, -⟩ | ⟨t, u, d, rfl, hd, hf, -⟩ := (effect hs).file
    · rw [State.content, hf] at hc
      exact h.file hc
    · obtain ⟨-, -, d', hren⟩ := hg.2
      obtain rfl : d' = d := Option.some.inj (hren.tmp.symm.trans hd)
      rw [State.content, hf] at hc
      obtain ⟨m, hm, c₀, h₀, rfl⟩ := hren.queued hc
      exact hR (h.seen ⟨_, hm⟩ h₀)

end VkSandbox
