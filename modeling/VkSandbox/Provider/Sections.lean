import VkSandbox.Provider.Memory

/-!
# Provider/Sections — what a write-locked section can do to a row

Every section edits rows in place, removes rows, or (two of them) puts rows in.  An edit keeps what
identifies the sandbox (`Claim.Same`), so the credential of a row can only be followed, never
changed: `Section.row_edit` says where a row comes from, `Section.row_forward` what becomes of one,
and `Section.Removes` which sections end it.
-/

namespace VkSandbox

/-- The same sandbox: an edit of a row keeps its credential, its address and its start time. -/
structure Claim.Same (c c' : Claim) : Prop where
  cred : c'.cred = c.cred
  address : c'.address = c.address
  claimedAt : c'.claimedAt = c.claimedAt

namespace Claim.Same

theorem refl (c : Claim) : Same c c := ⟨rfl, rfl, rfl⟩

theorem trans {c₁ c₂ c₃ : Claim} (h : Same c₁ c₂) (h' : Same c₂ c₃) : Same c₁ c₃ :=
  ⟨h'.cred.trans h.cred, h'.address.trans h.address, h'.claimedAt.trans h.claimedAt⟩

theorem id {c c' : Claim} (h : Same c c') : c'.id = c.id := congrArg Credential.id h.cred

end Claim.Same

namespace Memory

variable {m : Memory} {k key id : String} {c c' : Claim} {pod : Pod}

@[simp] theorem settled_eq_true : m.settled k = true ↔ k ∉ m.tentative ∧ k ∉ m.quarantined := by
  simp [settled]

theorem settled_eq_false : m.settled k = false ↔ k ∈ m.tentative ∨ k ∈ m.quarantined := by
  rw [← Bool.not_eq_true, settled_eq_true]
  tauto

theorem lookup_unverified : m.unverified.lookup k = some id ↔
    ∃ c, m.claims.lookup k = some c ∧ k ∈ m.quarantined ∧ c.id = id := by
  simp only [unverified, Table.lookup_pick, Option.bind_eq_some_iff]
  refine exists_congr fun c => and_congr_right fun _ => ?_
  split <;> simp [*]

theorem lookup_preserved : m.preserved.lookup k = some c ↔
    m.claims.lookup k = some c ∧ c.owner.isSome ∧ m.pods.lookup k = none ∧ m.settled k := by
  simp only [preserved, Table.lookup_pick, Option.bind_eq_some_iff]
  constructor
  · rintro ⟨c', hc, h⟩
    split at h
    · next hp =>
      cases h
      simp only [Bool.and_eq_true, Option.isNone_iff_eq_none] at hp
      exact ⟨hc, hp.1.1, hp.1.2, hp.2⟩
    · cases h
  · rintro ⟨hc, ho, hp, hs⟩
    exact ⟨c, hc, by simp [ho, hp, hs]⟩

theorem lookup_candidates {now : Time} : (m.candidates now).lookup k = some c ↔
    m.claims.lookup k = some c ∧ c.expired now ∧ m.settled k ∧ (m.pods.lookup k).isSome := by
  simp only [candidates, Table.lookup_pick, Option.bind_eq_some_iff]
  constructor
  · rintro ⟨c', hc, h⟩
    split at h
    · cases h
    · next hp =>
      cases h
      simp only [Bool.or_eq_true, Bool.not_eq_true', not_or, Bool.not_eq_false,
        Option.isNone_iff_eq_none, ← Option.isSome_iff_ne_none] at hp
      exact ⟨hc, hp.1.1, hp.1.2, hp.2⟩
  · rintro ⟨hc, he, hs, hp⟩
    exact ⟨c, hc, by simp [he, hs, ← Option.isSome_iff_ne_none, hp]⟩

theorem lookup_snapshot {committing : Option Key} :
    (m.snapshot committing).claims.lookup k = some c ↔
    m.claims.lookup k = some c ∧ (k ∉ m.tentative ∨ committing = some k) := by
  simp only [snapshot, Table.lookup_pick, Option.bind_eq_some_iff]
  constructor
  · rintro ⟨c', hc, h⟩
    split at h
    · next hp => cases h; exact ⟨hc, hp⟩
    · cases h
  · rintro ⟨hc, hp⟩
    exact ⟨c, hc, if_pos hp⟩

/-! ## Rows after a section -/

theorem row_load {st : StateFile} {now : Time} (h : (load st now m).claims.lookup k = some c') :
    ∃ c t, st.claims.lookup k = some c ∧ c' = { c with claimedAt := t } := by
  simp only [load, Table.lookup_pick, Option.bind_eq_some_iff, Option.some.injEq] at h
  obtain ⟨c, hc, rfl⟩ := h
  split
  · exact ⟨c, now, hc, rfl⟩
  · exact ⟨c, c.claimedAt, hc, rfl⟩

theorem row_settle {before : Table Key String} {live : Table String Time} :
    (settle before live m).claims.lookup k = some c' ↔ ∃ c, m.claims.lookup k = some c ∧
      (before.lookup k = some c.id ∧ settleRow live c = some c' ∨
        before.lookup k ≠ some c.id ∧ c' = c) := by
  simp only [settle, Table.lookup_pick, Option.bind_eq_some_iff]
  refine exists_congr fun c => and_congr_right fun _ => ?_
  split
  · next h => simp [h]
  · next h => simp [h, eq_comm]

theorem settleRow_eq_some {live : Table String Time} (h : settleRow live c = some c') :
    (live.lookup c.id).isSome ∧ c.Same c' ∧ c' = { c with deadline := c'.deadline } := by
  simp only [settleRow, Option.map_eq_some_iff] at h
  obtain ⟨d, hd, rfl⟩ := h
  refine ⟨by simp [hd], ?_⟩
  split
  · exact ⟨⟨rfl, rfl, rfl⟩, rfl⟩
  · exact ⟨.refl c, rfl⟩

theorem settleRow_eq_none {live : Table String Time} :
    settleRow live c = none ↔ live.lookup c.id = none := by simp [settleRow]

theorem row_dropClaim : (dropClaim key id m).claims.lookup k = some c ↔
    m.claims.lookup k = some c ∧ (k = key → c.id ≠ id) := by
  unfold dropClaim
  split
  · next c₀ h₀ =>
    split
    · next hid =>
      rw [Table.lookup_erase]
      split
      · next hk =>
        subst hk
        simp only [h₀, Option.some.injEq, reduceCtorEq, false_iff, not_and]
        rintro rfl h
        exact h trivial hid
      · next hk => simp [hk]
    · next hid =>
      refine ⟨fun h => ⟨h, ?_⟩, fun h => h.1⟩
      rintro rfl
      rw [h₀] at h
      cases h
      exact hid
  · next h₀ =>
    refine ⟨fun h => ⟨h, ?_⟩, fun h => h.1⟩
    rintro rfl
    rw [h₀] at h
    cases h

theorem lookup_editRow {f : Claim → Claim} {claims : Table Key Claim} :
    (editRow key id f claims).lookup k = some c' ↔
      ∃ c, claims.lookup k = some c ∧ c' = if k = key ∧ c.id = id then f c else c := by
  unfold editRow
  split
  · next c₀ h₀ =>
    split
    · next hid =>
      rw [Table.lookup_insert]
      split
      · next hk =>
        subst hk
        simp [h₀, hid, eq_comm]
      · next hk => simp [hk]
    · next hid =>
      by_cases hk : k = key
      · subst hk
        rw [h₀]
        refine ⟨fun h => ⟨c₀, rfl, ?_⟩, ?_⟩
        · simpa [hid] using h.symm
        · rintro ⟨_, ⟨⟩, h⟩
          simpa [hid] using h.symm
      · simp [hk]
  · next h₀ =>
    by_cases hk : k = key
    · subst hk
      simp [h₀]
    · simp [hk]

theorem row_refreshDeadline {d : Time} : (refreshDeadline key id d m).claims.lookup k = some c' ↔
    ∃ c, m.claims.lookup k = some c ∧
      c' = if k = key ∧ c.id = id then { c with deadline := d } else c := lookup_editRow

theorem row_preserveClaim {owner : Option OwnerReference} :
    (preserveClaim key id owner m).claims.lookup k = some c' ↔ ∃ c, m.claims.lookup k = some c ∧
      c' = if k = key ∧ c.id = id then { c with owner := owner } else c := lookup_editRow

theorem row_adoptExistingClaim_ne (h : k ≠ key) :
    (adoptExistingClaim key pod m).claims.lookup k = m.claims.lookup k := by
  unfold adoptExistingClaim
  split
  · rfl
  · split
    · rfl
    · split
      · exact Finmap.lookup_erase_ne h
      · exact Finmap.lookup_insert_of_ne _ h

/-- What `adoptExistingClaim` does, by what it finds. -/
theorem adoptExistingClaim_cases (key : Key) (pod : Pod) (m : Memory) :
    (m.claims.lookup key = none ∧ adoptExistingClaim key pod m = m ∧ adopted key pod m = none) ∨
    (m.settled key = false ∧ adoptExistingClaim key pod m = m ∧ adopted key pod m = none) ∨
    (∃ c, m.claims.lookup key = some c ∧ m.settled key ∧ c.adoptableBy pod = false ∧
      adoptExistingClaim key pod m
        = { m with claims := m.claims.erase key, releasing := m.releasing ++ [c] } ∧
      adopted key pod m = none) ∨
    (∃ c, m.claims.lookup key = some c ∧ m.settled key ∧ c.adoptableBy pod ∧
      adoptExistingClaim key pod m
        = { m with claims := m.claims.insert key (c.rebind pod), pods := m.pods.insert key pod } ∧
      adopted key pod m = some (c.rebind pod)) := by
  unfold adoptExistingClaim adopted
  cases hc : m.claims.lookup key with
  | none => exact .inl ⟨rfl, rfl, rfl⟩
  | some c =>
    cases hs : m.settled key with
    | false => exact .inr (.inl ⟨rfl, by simp, by simp⟩)
    | true =>
      cases ha : c.adoptableBy pod with
      | false => exact .inr (.inr (.inl ⟨c, rfl, rfl, ha, by simp [ha], by simp [ha]⟩))
      | true => exact .inr (.inr (.inr ⟨c, rfl, rfl, ha, by simp [ha], by simp [ha]⟩))

/-- What an adoption leaves. -/
theorem adopted_eq_some {pod : Pod} {c' : Claim} (h : adopted key pod m = some c') :
    ∃ c, m.claims.lookup key = some c ∧ m.settled key ∧ c.adoptableBy pod ∧
      adoptExistingClaim key pod m
        = { m with claims := m.claims.insert key (c.rebind pod), pods := m.pods.insert key pod } ∧
      c.rebind pod = c' := by
  obtain ⟨-, -, hn⟩ | ⟨-, -, hn⟩ | ⟨c, -, -, -, -, hn⟩ | ⟨c, hc, hs, had, hrun, he⟩ :=
    adoptExistingClaim_cases key pod m
  · rw [hn] at h; cases h
  · rw [hn] at h; cases h
  · rw [hn] at h; cases h
  · exact ⟨c, hc, hs, had, hrun, Option.some.inj (he.symm.trans h)⟩

theorem row_withdrawClaim : (withdrawClaim key id m).claims.lookup k = some c ↔
    m.claims.lookup k = some c ∧ (k = key → c.id ≠ id) := by
  rw [← row_dropClaim]
  unfold withdrawClaim dropClaim
  split
  · split <;> rfl
  · rfl

theorem row_insertClaim : (insertClaim key pod c m).claims.lookup k = some c' ↔
    (k = key ∧ c' = c) ∨ (k ≠ key ∧ m.claims.lookup k = some c') := by
  rw [insertClaim, Table.lookup_insert]
  split
  · next h => simp [h, eq_comm]
  · next h => simp [h]

theorem withdrawable_iff {c : Claim} : withdrawable key c m = true ↔
    ∃ cur, m.claims.lookup key = some cur ∧ cur.id = c.id ∧ m.pods.lookup key = none := by
  unfold withdrawable
  split
  · next cur h => simp [h]
  · next h => simp [h]

theorem row_withdrawForRelease {c₀ : Claim} :
    (withdrawForRelease key c₀ m).claims.lookup k = some c ↔
      m.claims.lookup k = some c ∧ ¬ (k = key ∧ withdrawable key c₀ m) := by
  unfold withdrawForRelease
  split
  · next h =>
    rw [Table.lookup_erase]
    split
    · next hk => simp [hk, h]
    · next hk => simp [hk]
  · next h => simp [h]

end Memory

/-! ## Where a row comes from, and what becomes of it -/

/-- The section that ends the row `c` of key `k`. -/
def Section.Removes (a : Section) (m : Memory) (k : Key) (c : Claim) : Prop :=
  match a with
  | .load _ _ => True
  | .settle before live => before.lookup k = some c.id ∧ live.lookup c.id = none
  | .dropClaim key id => k = key ∧ c.id = id
  | .adoptExistingClaim key pod => k = key ∧ m.settled key ∧ c.adoptableBy pod = false
  | .withdrawClaim key id => k = key ∧ c.id = id
  | .insertClaim key _ _ => k = key
  | .withdrawForRelease key c₀ => k = key ∧ m.withdrawable key c₀
  | _ => False

/-- The sections that put a row in. -/
def Section.Creates (a : Section) (k : Key) (c : Claim) : Prop :=
  match a with
  | .load st now => ((Memory.load st now {}).claims.lookup k = some c)
  | .insertClaim key _ c₀ => k = key ∧ c = c₀
  | _ => False

/-- **How a section edits a row**: a new deadline, the adopting Pod, or the owner it is kept for. -/
inductive Section.Edits (a : Section) (m : Memory) (k : Key) (c : Claim) : Claim → Prop where
  | deadline (d : Time) : Edits a m k c { c with deadline := d }
  | rebind {pod : Pod} : a = .adoptExistingClaim k pod → m.settled k → c.adoptableBy pod →
      Edits a m k c (c.rebind pod)
  | preserve {owner : Option OwnerReference} : a = .preserveClaim k c.id owner →
      Edits a m k c { c with owner := owner }

theorem Section.Edits.same {a : Section} {m : Memory} {k : Key} {c c' : Claim}
    (h : a.Edits m k c c') : c.Same c' := by
  cases h <;> exact ⟨rfl, rfl, rfl⟩

open Memory in
/-- **Where a row comes from**: it is the edit of a row, or one of two sections put it in. -/
theorem Section.row_edit {a : Section} {m : Memory} {k : Key} {c' : Claim}
    (h : (a.run m).claims.lookup k = some c') :
    (∃ c, m.claims.lookup k = some c ∧ a.Edits m k c c') ∨ a.Creates k c' := by
  have hsame : m.claims.lookup k = some c' →
      (∃ c, m.claims.lookup k = some c ∧ a.Edits m k c c') ∨ a.Creates k c' :=
    fun h => .inl ⟨c', h, .deadline c'.deadline⟩
  cases a with
  | load st now => exact .inr h
  | settle before live =>
    obtain ⟨c, hc, ⟨-, hs⟩ | ⟨-, rfl⟩⟩ := row_settle.mp h
    · rw [(settleRow_eq_some hs).2.2]
      exact .inl ⟨c, hc, .deadline _⟩
    · exact hsame hc
  | dropClaim key id => exact hsame (row_dropClaim.mp h).1
  | refreshDeadline key id d =>
    obtain ⟨c, hc, rfl⟩ := row_refreshDeadline.mp h
    refine .inl ⟨c, hc, ?_⟩
    split
    · exact .deadline d
    · exact .deadline c.deadline
  | adoptExistingClaim key pod =>
    by_cases hk : k = key
    · subst hk
      simp only [Section.run] at h
      obtain ⟨-, he, -⟩ | ⟨-, he, -⟩ | ⟨c, -, -, -, he, -⟩ | ⟨c, hc, hs, ha, he, -⟩ :=
        adoptExistingClaim_cases k pod m
      · rw [he] at h; exact hsame h
      · rw [he] at h; exact hsame h
      · rw [he, Finmap.lookup_erase] at h; cases h
      · rw [he, Finmap.lookup_insert] at h
        cases h
        exact .inl ⟨c, hc, .rebind rfl hs ha⟩
    · exact hsame (by rwa [Section.run, row_adoptExistingClaim_ne hk] at h)
  | withdrawClaim key id => exact hsame (row_withdrawClaim.mp h).1
  | insertClaim key pod c =>
    obtain ⟨hk, rfl⟩ | ⟨-, hc⟩ := row_insertClaim.mp h
    · exact .inr ⟨hk, rfl⟩
    · exact hsame hc
  | updatePod key pod =>
    refine hsame ?_
    simp only [Section.run, Memory.updatePod] at h
    split at h <;> exact h
  | preserveClaim key id owner =>
    obtain ⟨c, hc, rfl⟩ := row_preserveClaim.mp h
    refine .inl ⟨c, hc, ?_⟩
    split
    · next he =>
      obtain ⟨rfl, rfl⟩ := he
      exact .preserve rfl
    · exact .deadline c.deadline
  | withdrawForRelease key c => exact hsame (row_withdrawForRelease.mp h).1
  | setRecheck key r => cases r <;> exact hsame h
  | _ => exact hsame h

/-- Whatever the edit, it is the same sandbox. -/
theorem Section.row_back {a : Section} {m : Memory} {k : Key} {c' : Claim}
    (h : (a.run m).claims.lookup k = some c') :
    (∃ c, m.claims.lookup k = some c ∧ c.Same c') ∨ a.Creates k c' := by
  obtain ⟨c, hc, he⟩ | hcr := row_edit h
  · exact .inl ⟨c, hc, he.same⟩
  · exact .inr hcr

open Memory in
/-- **What becomes of a row**: it is edited in place, or the section ends it. -/
theorem Section.row_forward {a : Section} {m : Memory} {k : Key} {c : Claim}
    (h : m.claims.lookup k = some c) :
    (∃ c', (a.run m).claims.lookup k = some c' ∧ c.Same c') ∨ a.Removes m k c := by
  have hsame : (a.run m).claims.lookup k = some c →
      (∃ c', (a.run m).claims.lookup k = some c' ∧ c.Same c') ∨ a.Removes m k c :=
    fun h => .inl ⟨c, h, .refl c⟩
  cases a with
  | load st now => exact .inr trivial
  | settle before live =>
    by_cases hb : before.lookup k = some c.id
    · cases hs : settleRow live c with
      | none => exact .inr ⟨hb, settleRow_eq_none.mp hs⟩
      | some c' =>
        exact .inl ⟨c', row_settle.mpr ⟨c, h, .inl ⟨hb, hs⟩⟩, (settleRow_eq_some hs).2.1⟩
    · exact hsame (row_settle.mpr ⟨c, h, .inr ⟨hb, rfl⟩⟩)
  | dropClaim key id =>
    by_cases hk : k = key ∧ c.id = id
    · exact .inr hk
    · exact hsame (row_dropClaim.mpr ⟨h, fun h₁ h₂ => hk ⟨h₁, h₂⟩⟩)
  | refreshDeadline key id d =>
    refine .inl ⟨_, row_refreshDeadline.mpr ⟨c, h, rfl⟩, ?_⟩
    split
    · exact ⟨rfl, rfl, rfl⟩
    · exact .refl c
  | adoptExistingClaim key pod =>
    by_cases hk : k = key
    · subst hk
      obtain ⟨hn, -, -⟩ | ⟨-, he, -⟩ | ⟨c₁, hc, hs, ha, he, -⟩ | ⟨c₁, hc, -, -, he, -⟩ :=
        adoptExistingClaim_cases k pod m
      · rw [h] at hn; cases hn
      · exact hsame (by rw [Section.run, he]; exact h)
      · rw [h] at hc
        cases hc
        exact .inr ⟨rfl, hs, ha⟩
      · rw [h] at hc
        cases hc
        exact .inl ⟨c.rebind pod, by rw [Section.run, he]; exact Finmap.lookup_insert _,
          rfl, rfl, rfl⟩
    · exact hsame (by rw [Section.run, row_adoptExistingClaim_ne hk]; exact h)
  | withdrawClaim key id =>
    by_cases hk : k = key ∧ c.id = id
    · exact .inr hk
    · exact hsame (row_withdrawClaim.mpr ⟨h, fun h₁ h₂ => hk ⟨h₁, h₂⟩⟩)
  | insertClaim key pod c₀ =>
    by_cases hk : k = key
    · exact .inr hk
    · exact hsame (row_insertClaim.mpr (.inr ⟨hk, h⟩))
  | updatePod key pod =>
    refine hsame ?_
    simp only [Section.run, Memory.updatePod]
    split <;> exact h
  | preserveClaim key id owner =>
    refine .inl ⟨_, row_preserveClaim.mpr ⟨c, h, rfl⟩, ?_⟩
    split
    · exact ⟨rfl, rfl, rfl⟩
    · exact .refl c
  | withdrawForRelease key c₀ =>
    by_cases hk : k = key ∧ m.withdrawable key c₀
    · exact .inr hk
    · exact hsame (row_withdrawForRelease.mpr ⟨h, hk⟩)
  | setRecheck key r => cases r <;> exact hsame h
  | _ => exact hsame h

/-! ## Markers, Pods and the release queue -/

/-- A key becomes tentative only where a fresh claim is recorded. -/
theorem Section.tentative_back {a : Section} {m : Memory} {k : Key}
    (h : k ∈ (a.run m).tentative) : k ∈ m.tentative ∨ ∃ pod c, a = .insertClaim k pod c := by
  cases a with
  | insertClaim key pod c =>
    rcases Finset.mem_insert.mp h with rfl | h
    · exact .inr ⟨pod, c, rfl⟩
    · exact .inl h
  | clearTentative key => exact .inl (Finset.mem_of_mem_erase h)
  | dropClaim key id =>
    simp only [run, Memory.dropClaim] at h
    split at h
    · split at h <;> exact .inl h
    · exact .inl h
  | adoptExistingClaim key pod =>
    simp only [run] at h
    obtain ⟨-, he, -⟩ | ⟨-, he, -⟩ | ⟨c, -, -, -, he, -⟩ | ⟨c, -, -, -, he, -⟩ :=
      Memory.adoptExistingClaim_cases key pod m <;> rw [he] at h <;> exact .inl h
  | withdrawClaim key id =>
    simp only [run, Memory.withdrawClaim] at h
    have h := Finset.mem_of_mem_erase h
    split at h
    · split at h <;> exact .inl h
    · exact .inl h
  | updatePod key pod =>
    simp only [run, Memory.updatePod] at h
    split at h <;> exact .inl h
  | withdrawForRelease key c =>
    simp only [run, Memory.withdrawForRelease] at h
    split at h <;> exact .inl h
  | setRecheck key r => cases r <;> exact .inl h
  | _ => exact .inl h

/-- A key stops being tentative only by its commit or its withdrawal. -/
theorem Section.tentative_forward {a : Section} {m : Memory} {k : Key} (h : k ∈ m.tentative) :
    k ∈ (a.run m).tentative ∨ (∃ id, a = .withdrawClaim k id) ∨ a = .clearTentative k := by
  cases a with
  | insertClaim key pod c => exact .inl (Finset.mem_insert_of_mem h)
  | clearTentative key =>
    by_cases hk : k = key
    · exact .inr (.inr (by rw [hk]))
    · exact .inl (Finset.mem_erase.mpr ⟨hk, h⟩)
  | dropClaim key id =>
    simp only [run, Memory.dropClaim]
    split
    · split <;> exact .inl h
    · exact .inl h
  | adoptExistingClaim key pod =>
    simp only [run]
    obtain ⟨-, he, -⟩ | ⟨-, he, -⟩ | ⟨c, -, -, -, he, -⟩ | ⟨c, -, -, -, he, -⟩ :=
      Memory.adoptExistingClaim_cases key pod m <;> rw [he] <;> exact .inl h
  | withdrawClaim key id =>
    by_cases hk : k = key
    · exact .inr (.inl ⟨id, by rw [hk]⟩)
    · simp only [run, Memory.withdrawClaim]
      refine .inl (Finset.mem_erase.mpr ⟨hk, ?_⟩)
      split
      · split <;> exact h
      · exact h
  | updatePod key pod =>
    simp only [run, Memory.updatePod]
    split <;> exact .inl h
  | withdrawForRelease key c =>
    simp only [run, Memory.withdrawForRelease]
    split <;> exact .inl h
  | setRecheck key r => cases r <;> exact .inl h
  | _ => exact .inl h

/-- After startup no key enters quarantine; a row the listing has judged leaves it. -/
theorem Section.quarantined_back {a : Section} {m : Memory} {k : Key}
    (h : k ∈ (a.run m).quarantined) :
    (a = .quarantineLoadedClaims ∧ k ∈ m.claims) ∨ (k ∈ m.quarantined ∧
      (∀ before live, a = .settle before live → m.judged before k = false) ∧
      ∀ id, a ≠ .withdrawClaim k id) := by
  have hsame : (∀ before live, a ≠ .settle before live) → (∀ id, a ≠ .withdrawClaim k id) →
      k ∈ m.quarantined → (a = .quarantineLoadedClaims ∧ k ∈ m.claims) ∨ (k ∈ m.quarantined ∧
      (∀ before live, a = .settle before live → m.judged before k = false) ∧
      ∀ id, a ≠ .withdrawClaim k id) :=
    fun hs hw hk => .inr ⟨hk, fun before live he => absurd he (hs before live), hw⟩
  cases a with
  | quarantineLoadedClaims =>
    rcases Finset.mem_union.mp h with h | h
    · exact hsame (by simp) (by simp) h
    · exact .inl ⟨rfl, Finmap.mem_keys.mp h⟩
  | settle before live =>
    obtain ⟨h, hj⟩ := Finset.mem_filter.mp h
    refine .inr ⟨h, fun before' live' he => ?_, by simp⟩
    cases he
    exact hj
  | dropClaim key id =>
    simp only [run, Memory.dropClaim] at h
    split at h
    · split at h <;> exact hsame (by simp) (by simp) h
    · exact hsame (by simp) (by simp) h
  | adoptExistingClaim key pod =>
    simp only [run] at h
    obtain ⟨-, he, -⟩ | ⟨-, he, -⟩ | ⟨c, -, -, -, he, -⟩ | ⟨c, -, -, -, he, -⟩ :=
      Memory.adoptExistingClaim_cases key pod m <;> rw [he] at h <;>
      exact hsame (by simp) (by simp) h
  | withdrawClaim key id =>
    simp only [run, Memory.withdrawClaim] at h
    obtain ⟨hne, h⟩ := Finset.mem_erase.mp h
    have hw : ∀ id', Section.withdrawClaim key id ≠ .withdrawClaim k id' := by
      rintro id' he
      cases he
      exact hne rfl
    split at h
    · split at h <;> exact hsame (by simp) hw h
    · exact hsame (by simp) hw h
  | updatePod key pod =>
    simp only [run, Memory.updatePod] at h
    split at h <;> exact hsame (by simp) (by simp) h
  | withdrawForRelease key c =>
    simp only [run, Memory.withdrawForRelease] at h
    split at h <;> exact hsame (by simp) (by simp) h
  | setRecheck key r => cases r <;> exact hsame (by simp) (by simp) h
  | _ => exact hsame (by simp) (by simp) h

/-- A key leaves quarantine only when a listing has judged its row, or with its withdrawal. -/
theorem Section.quarantined_forward {a : Section} {m : Memory} {k : Key} (h : k ∈ m.quarantined) :
    k ∈ (a.run m).quarantined ∨
      (∃ before live, a = .settle before live ∧ m.judged before k = true) ∨
      ∃ id, a = .withdrawClaim k id := by
  cases a with
  | quarantineLoadedClaims => exact .inl (Finset.mem_union_left _ h)
  | settle before live =>
    cases hj : m.judged before k with
    | true => exact .inr (.inl ⟨before, live, rfl, hj⟩)
    | false => exact .inl (Finset.mem_filter.mpr ⟨h, hj⟩)
  | dropClaim key id =>
    simp only [run, Memory.dropClaim]
    split
    · split <;> exact .inl h
    · exact .inl h
  | adoptExistingClaim key pod =>
    simp only [run]
    obtain ⟨-, he, -⟩ | ⟨-, he, -⟩ | ⟨c, -, -, -, he, -⟩ | ⟨c, -, -, -, he, -⟩ :=
      Memory.adoptExistingClaim_cases key pod m <;> rw [he] <;> exact .inl h
  | withdrawClaim key id =>
    by_cases hk : k = key
    · exact .inr (.inr ⟨id, by rw [hk]⟩)
    · simp only [run, Memory.withdrawClaim]
      refine .inl (Finset.mem_erase.mpr ⟨hk, ?_⟩)
      split
      · split <;> exact h
      · exact h
  | updatePod key pod =>
    simp only [run, Memory.updatePod]
    split <;> exact .inl h
  | withdrawForRelease key c =>
    simp only [run, Memory.withdrawForRelease]
    split <;> exact .inl h
  | setRecheck key r => cases r <;> exact .inl h
  | _ => exact .inl h

/-- **What one goroutine owns changes in its own sections only**: the backoffs in those of the
re-check, the verdicts in that of the scan. -/
theorem Section.owned_run (a : Section) (m : Memory) :
    ((a.run m).ownerRechecks = m.ownerRechecks ∨ (∃ keep, a = .pruneRechecks keep) ∨
      ∃ key r, a = .setRecheck key r) ∧
    ((a.run m).orphanVerdicts = m.orphanVerdicts ∨ ∃ v, a = .setVerdicts v) := by
  cases a with
  | dropClaim key id =>
    simp only [run, Memory.dropClaim]
    split
    · split <;> exact ⟨.inl rfl, .inl rfl⟩
    · exact ⟨.inl rfl, .inl rfl⟩
  | adoptExistingClaim key pod =>
    simp only [run]
    obtain ⟨-, he, -⟩ | ⟨-, he, -⟩ | ⟨c, -, -, -, he, -⟩ | ⟨c, -, -, -, he, -⟩ :=
      Memory.adoptExistingClaim_cases key pod m <;> rw [he] <;> exact ⟨.inl rfl, .inl rfl⟩
  | withdrawClaim key id =>
    simp only [run, Memory.withdrawClaim]
    split
    · split <;> exact ⟨.inl rfl, .inl rfl⟩
    · exact ⟨.inl rfl, .inl rfl⟩
  | updatePod key pod =>
    simp only [run, Memory.updatePod]
    split <;> exact ⟨.inl rfl, .inl rfl⟩
  | withdrawForRelease key c =>
    simp only [run, Memory.withdrawForRelease]
    split <;> exact ⟨.inl rfl, .inl rfl⟩
  | pruneRechecks keep => exact ⟨.inr (.inl ⟨keep, rfl⟩), .inl rfl⟩
  | setRecheck key r => exact ⟨.inr (.inr ⟨key, r, rfl⟩), .inl (by cases r <;> rfl)⟩
  | setVerdicts v => exact ⟨.inl rfl, .inr ⟨v, rfl⟩⟩
  | _ => exact ⟨.inl rfl, .inl rfl⟩

/-- The key whose Pod entry a section may change. -/
def Section.podKey : Section → Option Key
  | adoptExistingClaim key _ | withdrawClaim key _ | insertClaim key _ _ | updatePod key _
  | forgetPod key | preserveClaim key _ _ => some key
  | _ => none

/-- A section leaves the Pods of the other keys alone. -/
theorem Section.pods_other {a : Section} {m : Memory} {k : Key} (h : a.podKey ≠ some k) :
    (a.run m).pods.lookup k = m.pods.lookup k := by
  have hne : ∀ key, a.podKey = some key → k ≠ key := by
    rintro key hk rfl
    exact h hk
  cases a with
  | dropClaim key id =>
    simp only [run, Memory.dropClaim]
    split
    · split <;> rfl
    · rfl
  | adoptExistingClaim key pod =>
    simp only [run]
    obtain ⟨-, he, -⟩ | ⟨-, he, -⟩ | ⟨c, -, -, -, he, -⟩ | ⟨c, -, -, -, he, -⟩ :=
      Memory.adoptExistingClaim_cases key pod m <;> rw [he]
    exact Finmap.lookup_insert_of_ne _ (hne key rfl)
  | withdrawClaim key id =>
    simp only [run, Memory.withdrawClaim]
    split
    · split
      · exact Finmap.lookup_erase_ne (hne key rfl)
      · rfl
    · rfl
  | insertClaim key pod c => exact Finmap.lookup_insert_of_ne _ (hne key rfl)
  | updatePod key pod =>
    simp only [run, Memory.updatePod]
    split
    · rfl
    · exact Finmap.lookup_insert_of_ne _ (hne key rfl)
  | forgetPod key => exact Finmap.lookup_erase_ne (hne key rfl)
  | preserveClaim key id owner => exact Finmap.lookup_erase_ne (hne key rfl)
  | withdrawForRelease key c =>
    simp only [run, Memory.withdrawForRelease]
    split <;> rfl
  | setRecheck key r => cases r <;> rfl
  | _ => rfl

/-- Where a tracked Pod comes from. -/
theorem Section.pods_back {a : Section} {m : Memory} {k : Key} {p : Pod}
    (h : (a.run m).pods.lookup k = some p) : m.pods.lookup k = some p ∨
      a = .adoptExistingClaim k p ∨ a = .updatePod k p ∨
      ∃ pod c, a = .insertClaim k pod c ∧ p = podWithClaim pod c.id := by
  by_cases hk : a.podKey = some k
  · cases a with
    | adoptExistingClaim key pod =>
      cases hk
      simp only [run] at h
      obtain ⟨-, he, -⟩ | ⟨-, he, -⟩ | ⟨c, -, -, -, he, -⟩ | ⟨c, -, -, -, he, -⟩ :=
        Memory.adoptExistingClaim_cases k pod m <;> rw [he] at h
      · exact .inl h
      · exact .inl h
      · exact .inl h
      · rw [Finmap.lookup_insert] at h
        cases h
        exact .inr (.inl rfl)
    | withdrawClaim key id =>
      cases hk
      simp only [run, Memory.withdrawClaim] at h
      split at h
      · split at h
        · rw [Finmap.lookup_erase] at h
          cases h
        · exact .inl h
      · exact .inl h
    | insertClaim key pod c =>
      cases hk
      simp only [run, Memory.insertClaim, Finmap.lookup_insert, Option.some.injEq] at h
      exact .inr (.inr (.inr ⟨pod, c, rfl, h.symm⟩))
    | updatePod key pod =>
      cases hk
      simp only [run, Memory.updatePod] at h
      split at h
      · exact .inl h
      · rw [Finmap.lookup_insert] at h
        cases h
        exact .inr (.inr (.inl rfl))
    | forgetPod key =>
      cases hk
      simp only [run, Memory.forgetPod, Finmap.lookup_erase, reduceCtorEq] at h
    | preserveClaim key id owner =>
      cases hk
      simp only [run, Memory.preserveClaim, Finmap.lookup_erase, reduceCtorEq] at h
    | _ => cases hk
  · exact .inl (pods_other hk ▸ h)

/-- A tracked Pod is forgotten by its withdrawal, its delete or its preservation. -/
theorem Section.pods_gone {a : Section} {m : Memory} {k : Key} {p : Pod}
    (h : m.pods.lookup k = some p) : (∃ p', (a.run m).pods.lookup k = some p') ∨
      (∃ id, a = .withdrawClaim k id) ∨ a = .forgetPod k ∨
        ∃ id owner, a = .preserveClaim k id owner := by
  by_cases hk : a.podKey = some k
  · cases a with
    | adoptExistingClaim key pod =>
      cases hk
      simp only [run]
      obtain ⟨-, he, -⟩ | ⟨-, he, -⟩ | ⟨c, -, -, -, he, -⟩ | ⟨c, -, -, -, he, -⟩ :=
        Memory.adoptExistingClaim_cases k pod m <;> rw [he]
      · exact .inl ⟨p, h⟩
      · exact .inl ⟨p, h⟩
      · exact .inl ⟨p, h⟩
      · exact .inl ⟨pod, Finmap.lookup_insert _⟩
    | withdrawClaim key id => cases hk; exact .inr (.inl ⟨id, rfl⟩)
    | insertClaim key pod c => cases hk; exact .inl ⟨_, Finmap.lookup_insert _⟩
    | updatePod key pod =>
      cases hk
      simp only [run, Memory.updatePod]
      split
      · exact .inl ⟨p, h⟩
      · exact .inl ⟨pod, Finmap.lookup_insert _⟩
    | forgetPod key => cases hk; exact .inr (.inr (.inl rfl))
    | preserveClaim key id owner => cases hk; exact .inr (.inr (.inr ⟨id, owner, rfl⟩))
    | _ => cases hk
  · exact .inl ⟨p, (pods_other hk).trans h⟩

/-- What a section leaves in the release queue: what was there, less what it took off, plus what it
withdrew. -/
theorem Section.releasing_run (a : Section) (m : Memory) :
    (a.run m).releasing = match a with
      | .load st _ => st.releasing
      | .adoptExistingClaim key pod =>
        m.releasing ++ (match m.claims.lookup key with
          | some c => if m.settled key ∧ c.adoptableBy pod = false then [c] else []
          | none => [])
      | .withdrawForRelease key c => m.releasing ++ if m.withdrawable key c then [c] else []
      | .dequeue id => m.releasing.filter (·.id ≠ id)
      | _ => m.releasing := by
  cases a with
  | dropClaim key id =>
    simp only [run, Memory.dropClaim]
    split
    · split <;> rfl
    · rfl
  | adoptExistingClaim key pod =>
    simp only [run]
    obtain ⟨hn, he, -⟩ | ⟨hn, he, -⟩ | ⟨c, hc, hs, ha, he, -⟩ | ⟨c, hc, hs, ha, he, -⟩ :=
      Memory.adoptExistingClaim_cases key pod m <;> rw [he]
    · simp [hn]
    · cases m.claims.lookup key <;> simp [hn]
    · simp [hc, hs, ha]
    · simp [hc, ha]
  | withdrawClaim key id =>
    simp only [run, Memory.withdrawClaim]
    split
    · split <;> rfl
    · rfl
  | updatePod key pod =>
    simp only [run, Memory.updatePod]
    split <;> rfl
  | withdrawForRelease key c =>
    simp only [run, Memory.withdrawForRelease]
    split <;> simp
  | setRecheck key r => cases r <;> rfl
  | _ => rfl

/-- Where a queued claim comes from. -/
theorem Section.releasing_back {a : Section} {m : Memory} {c : Claim}
    (h : c ∈ (a.run m).releasing) :
    c ∈ m.releasing ∨ (∃ st now, a = .load st now ∧ c ∈ st.releasing) ∨
      (∃ key pod, a = .adoptExistingClaim key pod ∧ m.claims.lookup key = some c ∧ m.settled key ∧
        c.adoptableBy pod = false) ∨
      ∃ key, a = .withdrawForRelease key c ∧ m.withdrawable key c := by
  rw [releasing_run] at h
  cases a with
  | load st now => exact .inr (.inl ⟨st, now, rfl, h⟩)
  | adoptExistingClaim key pod =>
    rcases List.mem_append.mp h with h | h
    · exact .inl h
    · split at h
      · next c₀ hc =>
        split at h
        · next hs =>
          obtain rfl := List.mem_singleton.mp h
          exact .inr (.inr (.inl ⟨key, pod, rfl, hc, hs.1, hs.2⟩))
        · cases h
      · cases h
  | withdrawForRelease key c₀ =>
    rcases List.mem_append.mp h with h | h
    · exact .inl h
    · split at h
      · next hw =>
        obtain rfl := List.mem_singleton.mp h
        exact .inr (.inr (.inr ⟨key, rfl, hw⟩))
      · cases h
  | dequeue id => exact .inl (List.mem_filter.mp h).1
  | _ => exact .inl h

/-- A queued claim leaves the queue only when its release is struck off. -/
theorem Section.releasing_forward {a : Section} {m : Memory} {c : Claim} (h : c ∈ m.releasing) :
    c ∈ (a.run m).releasing ∨ (∃ st now, a = .load st now) ∨ a = .dequeue c.id := by
  rw [releasing_run]
  cases a with
  | load st now => exact .inr (.inl ⟨st, now, rfl⟩)
  | adoptExistingClaim key pod => exact .inl (List.mem_append_left _ h)
  | withdrawForRelease key c₀ => exact .inl (List.mem_append_left _ h)
  | dequeue id =>
    by_cases hid : c.id = id
    · exact .inr (.inr (by rw [hid]))
    · exact .inl (List.mem_filter.mpr ⟨h, by simpa using hid⟩)
  | _ => exact .inl h

end VkSandbox
