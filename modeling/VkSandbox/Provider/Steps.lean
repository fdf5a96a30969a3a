import VkSandbox.Provider.Outline

/-!
# Provider/Steps — what a guarded event does

The frame facts behind the outline.  First the past: a version of the tables, once there, stays
where it is.  Then the sections, read under their guards: where a row comes from (`Guarded.row`),
what a removal means for its credential (`Guarded.gone`), and that no section makes a credential
durable but the one that follows a rename (`Guarded.durable`).
-/

namespace VkSandbox

open Interleave

/-! ## The past -/

namespace State

variable {s : State} {m m' : Memory} {n : ℕ}

theorem memAt_instant (s : State) : s.memAt s.instant = some s.mem := by
  simp [memAt, instant]

theorem seen_mem (s : State) : s.Seen s.mem := ⟨s.instant, s.memAt_instant⟩

theorem memAt_setMem (h : s.memAt n = some m) : (s.setMem m').memAt n = some m := by
  simp only [memAt, setMem, List.reverse_cons] at h ⊢
  rw [List.getElem?_append_left]
  · exact h
  · simpa using (List.getElem?_eq_some_iff.mp h).1

theorem memAt_setMem_cases (h : (s.setMem m').memAt n = some m) :
    s.memAt n = some m ∨ n = s.instant + 1 ∧ m = m' := by
  simp only [memAt, setMem, instant, List.reverse_cons] at h ⊢
  rw [List.getElem?_append] at h
  split at h
  · exact .inl h
  · next hn =>
    rw [List.getElem?_singleton] at h
    split at h
    · next hz =>
      refine .inr ⟨?_, by simpa using h.symm⟩
      simp only [List.length_append, List.length_reverse, List.length_singleton] at hn hz
      omega
    · cases h

theorem memAt_le (h : s.memAt n = some m) : n ≤ s.instant := by
  have := (List.getElem?_eq_some_iff.mp h).1
  simp only [List.length_reverse, List.length_cons] at this
  exact Nat.lt_succ_iff.mp this

theorem seen_setMem : (s.setMem m').Seen m ↔ s.Seen m ∨ m = m' := by
  constructor
  · rintro ⟨n, hn⟩
    rcases memAt_setMem_cases hn with h | ⟨-, rfl⟩
    · exact .inl ⟨n, h⟩
    · exact .inr rfl
  · rintro (⟨n, hn⟩ | rfl)
    · exact ⟨n, memAt_setMem hn⟩
    · exact (s.setMem m).seen_mem

@[simp] theorem mem_looked (s : State) (t : Tid) : (s.looked t).mem = s.mem := rfl

theorem live_boot : s.Live .boot ↔ s.phase = .booting := Iff.rfl

end State

/-! ## Credentials of a table -/

theorem StateFile.Holds.mono {st st' : StateFile} {cr : Credential} (h : st.Holds cr)
    (hc : ∀ k c, st.claims.lookup k = some c → c.cred = cr → st'.Holds cr)
    (hr : ∀ c ∈ st.releasing, c.cred = cr → st'.Holds cr) : st'.Holds cr := by
  obtain ⟨k, c, hk, he⟩ | ⟨c, hk, he⟩ := h
  · exact hc k c hk he
  · exact hr c hk he

theorem StateFile.mem_ids {st : StateFile} {id : String} :
    id ∈ st.ids ↔ ∃ cr, st.Holds cr ∧ cr.id = id := by
  simp [ids, Finset.mem_image, mem_creds]

/-- What has been recovered stays so while the file does and rows go only when a listing misses
them. -/
theorem State.Recovered.of {s s' : State} (h : s.Recovered) (hf : s'.disk.file = s.disk.file)
    (hm : s.ledger.missed ⊆ s'.ledger.missed)
    (hrow : ∀ k c, s.row k = some c → c.id ∈ s'.ledger.missed ∨
      ∃ c', s'.row k = some c' ∧ c'.cred = c.cred)
    (hq : s.mem.releasing ⊆ s'.mem.releasing) : s'.Recovered where
  rows := fun {k c} hc => by
    rw [State.content, hf] at hc
    obtain hl | ⟨c₁, h₁, he₁⟩ := h.rows hc
    · exact .inl (hm hl)
    · obtain hl | ⟨c₂, h₂, he₂⟩ := hrow k c₁ h₁
      · rw [show c₁.id = c.id from congrArg Credential.id he₁] at hl
        exact .inl hl
      · exact .inr ⟨c₂, h₂, he₂.trans he₁⟩
  queue := by
    rw [State.content, hf]
    exact List.Subset.trans h.queue (List.map_subset _ hq)

/-- While the tables stay, so does what has been recovered. -/
theorem State.Recovered.congr {s s' : State} (h : s.Recovered) (hf : s'.disk.file = s.disk.file)
    (hl : s.ledger.missed ⊆ s'.ledger.missed) (hm : s'.mem = s.mem) : s'.Recovered :=
  h.of hf hl (fun k c hc => .inr ⟨c, by rw [State.row, hm]; exact hc, rfl⟩) (by rw [hm]; simp)

/-- Every credential of the file is in the tables, or its sandbox is known to be gone. -/
theorem State.Recovered.holds {s : State} (h : s.Recovered) {cr : Credential}
    (hcr : s.content.Holds cr) : cr.id ∈ s.ledger.missed ∨ s.mem.all.Holds cr := by
  obtain ⟨k, c, hk, rfl⟩ | ⟨c, hc, rfl⟩ := hcr
  · exact (h.rows hk).imp_right fun ⟨c', hc', he⟩ => .inl ⟨k, c', hc', he⟩
  · obtain ⟨c', hc', he⟩ := List.mem_map.mp (h.queue (List.mem_map_of_mem hc))
    exact .inr (.inr ⟨c', hc', he⟩)

theorem Memory.holds_row {m : Memory} {k : Key} {c : Claim} (h : m.claims.lookup k = some c) :
    m.all.Holds c.cred := .inl ⟨k, c, h, rfl⟩

theorem Memory.holds_queued {m : Memory} {c : Claim} (h : c ∈ m.releasing) : m.all.Holds c.cred :=
  .inr ⟨c, h, rfl⟩

/-- What a snapshot holds, the tables held. -/
theorem Memory.holds_of_snapshot {m : Memory} {committing : Option Key} {cr : Credential}
    (h : (m.snapshot committing).Holds cr) : m.all.Holds cr := by
  refine h.mono (fun k c hk he => ?_) (fun c hc he => .inr ⟨c, hc, he⟩)
  exact .inl ⟨k, c, (lookup_snapshot.mp hk).1, he⟩

/-- The durable credentials: settled or quarantined rows, and the release queue. -/
theorem Memory.holds_durable {m : Memory} {cr : Credential} : (m.snapshot none).Holds cr ↔
    (∃ k c, m.claims.lookup k = some c ∧ k ∉ m.tentative ∧ c.cred = cr) ∨
      ∃ c ∈ m.releasing, c.cred = cr := by
  simp only [StateFile.Holds, lookup_snapshot, reduceCtorEq, or_false, and_assoc]
  rfl

namespace Ledger

theorem mem_issuedIds_of {l : Ledger} {cr : Credential} (h : cr ∈ l.issued) : cr.id ∈ l.issuedIds :=
  Finset.mem_image_of_mem _ h

end Ledger

/-! ## What an event does -/

section Events

variable {s s' : State} {t : Tid}

/-- What the beginning of a call does. -/
theorem apply_started {op : Op} (h : apply (.started t op) s = some s') :
    (t = .boot ∧ op = .new ∧ s.phase = .down ∧ s.ledger.calls .boot = none ∧
      s' = { s with phase := .booting }.record fun l =>
        (l.begin .boot .new s.instant).boot s.instant) ∨
    (t ≠ .boot ∧ s.phase = .up ∧ mayCall t op ∧ s.ledger.calls t = none ∧
      s' = s.record (·.begin t op s.instant)) := by
  simp only [apply] at h
  split at h
  · split at h
    · next hp => cases h; exact .inl ⟨rfl, rfl, hp.1, Option.isNone_iff_eq_none.mp hp.2, rfl⟩
    · cases h
  · next hne =>
    split at h
    · next hp =>
      cases h
      refine .inr ⟨?_, hp.1, hp.2.1, Option.isNone_iff_eq_none.mp hp.2.2, rfl⟩
      rintro rfl
      simp [mayCall] at hp
    · cases h

theorem answer_now {now : Time} (h : answer t .now now s = some s') : s = s' ∧ second ≤ now := by
  simp only [answer] at h
  split at h
  · next hle => cases h; exact ⟨rfl, hle⟩
  · cases h

/-- What a rename that succeeds does. -/
theorem answer_rename {u : Unit} (h : answer t .rename (.ok u) s = some s') :
    ∃ d, s.disk.tmp = some d ∧ s' = { s with
      disk := { file := .table d.st, instant := some d.instant, writer := some d.writer } }.record
        fun l => { l with filed := l.filed ∪ d.st.ids } := by
  simp only [answer] at h
  split at h
  · next d hd => cases h; exact ⟨d, hd, rfl⟩
  · cases h

/-- What a request leaves alone. -/
structure Answered (e : Request) (s s' : State) : Prop where
  mem : s'.mem = s.mem
  past : s'.past = s.past
  phase : s'.phase = s.phase
  calls : s'.ledger.calls = s.ledger.calls
  readAt : s'.ledger.readAt = s.ledger.readAt
  bindings : s'.ledger.bindings = s.ledger.bindings
  returned : s'.ledger.returned = s.ledger.returned
  deletes : s'.ledger.deletes = s.ledger.deletes
  saveMu : e ≠ .lockSave → e ≠ .unlockSave → s'.saveMu = s.saveMu
  disk : (∀ st, e ≠ .writeFile st) → e ≠ .rename → s'.disk = s.disk
  sent : (∀ id token, e ≠ .sendRelease id token) → s'.ledger.sent = s.ledger.sent
  issued : (∀ spec, e ≠ .claim spec) → s'.ledger.issued = s.ledger.issued
  progress : ∀ k, (∀ spec, e = .claim spec → k ≠ spec.claimRef) →
    s'.ledger.progress k = s.ledger.progress k
  loaded : e ≠ .readFile → s'.ledger.loaded = s.ledger.loaded
  running : (∀ pod, e ≠ .notify pod) → s'.ledger.running = s.ledger.running
  missed : e ≠ .sandboxes → s'.ledger.missed = s.ledger.missed
  vouched : e ≠ .sandboxes → s'.ledger.vouched = s.ledger.vouched

theorem answered {e : Request} {r : Reply e} (h : answer t e r s = some s') : Answered e s s' := by
  have hrefl : Answered e s s := by constructor <;> intros <;> rfl
  cases e with
  | rename =>
    cases r with
    | error err => cases h; exact { hrefl with }
    | ok x =>
      obtain ⟨d, -, rfl⟩ := answer_rename h
      exact { hrefl with disk := fun _ h => absurd rfl h }
  | claim spec =>
    cases r with
    | error err => cases h; exact hrefl
    | ok res =>
      simp only [answer] at h
      split at h
      · cases h
      · cases h
        exact { hrefl with
          issued := fun h => absurd rfl (h spec)
          progress := fun k hk => Function.update_of_ne (hk spec rfl) _ _ }
  | now =>
    obtain ⟨rfl, -⟩ := answer_now h
    exact hrefl
  | rangeOver keys =>
    simp only [answer] at h
    split at h
    · cases h; exact hrefl
    · cases h
  | lockSave =>
    simp only [answer] at h
    split at h
    · cases h; exact { hrefl with saveMu := fun h => absurd rfl h }
    · cases h
  | unlockSave =>
    simp only [answer] at h
    split at h
    · cases h; exact { hrefl with saveMu := fun _ h => absurd rfl h }
    · cases h
  | sendRelease id token => cases h; exact { hrefl with sent := fun h => absurd rfl (h id token) }
  | notify pod => cases h; exact { hrefl with running := fun h => absurd rfl (h pod) }
  | writeFile st => cases r <;> cases h <;> exact { hrefl with disk := fun h => absurd rfl (h st) }
  | readFile =>
    cases r with
    | failed err => cases h; exact hrefl
    | absent | undecodable err | decoded st =>
      simp only [answer] at h
      split at h
      · cases h; exact { hrefl with loaded := fun h => absurd rfl h }
      · cases h
  | sandboxes =>
    cases r <;> cases h <;>
      exact { hrefl with missed := fun h => absurd rfl h, vouched := fun h => absurd rfl h }
  | release id token | mkdirAll => cases r <;> cases h <;> exact { hrefl with }
  | _ => cases h; exact { hrefl with }

end Events

/-! ## Sections under their guards -/

/-- The two sections only `New` goes through. -/
def Section.Startup : Section → Prop
  | .load _ _ | .quarantineLoadedClaims => True
  | _ => False

/-- **How a row ends**, and what its thread knows then. -/
inductive Ending (cfg : Config) (s : State) (t : Tid) (a : Section) (k : Key) (c : Claim) :
    Prop where
  | unlisted {before live} : a = .settle before live → before.lookup k = some c.id →
      c.id ∈ s.ledger.loaded → c.id ∈ s.ledger.missed → Ending cfg s t a k c
  | dropped : a = .dropClaim k c.id → t = .lifecycle k → s.mem.settled k →
      (cfg.lister → c.id ∈ s.ledger.missed) → Ending cfg s t a k c
  | superseded {pod} : a = .adoptExistingClaim k pod → t = .lifecycle k → s.mem.settled k →
      c.adoptableBy pod = false → Ending cfg s t a k c
  | withdrawn : a = .withdrawClaim k c.id → t = .lifecycle k → c.id ∈ s.ledger.released →
      Ending cfg s t a k c
  | rechecked {c₀} : a = .withdrawForRelease k c₀ → t = .ownerRecheck → c₀.Same c →
      s.mem.settled k → s.mem.pods.lookup k = none → s.Authorised k c₀.owner →
      (∃ m, s.SeenAlive m ∧ m.preserved.lookup k = some c₀) → Ending cfg s t a k c

namespace SectionGuard

variable {cfg : Config} {s : State} {t : Tid} {a : Section} {k : Key} {c c' : Claim}

theorem not_startup (hg : SectionGuard cfg s t a) (ht : t ≠ .boot) : ¬ a.Startup := by
  cases a <;> first | exact fun h => h | exact fun _ => ht hg.1

/-- **What becomes of a row**: an edit, or one of five endings. -/
theorem forward (hg : SectionGuard cfg s t a) (h : s.row k = some c) :
    (∃ c', (a.run s.mem).claims.lookup k = some c' ∧ c.Same c') ∨ Ending cfg s t a k c := by
  obtain h' | hr := Section.row_forward (a := a) h
  · exact .inl h'
  · refine .inr ?_
    cases a with
    | load st now =>
      have hm : s.mem = {} := hg.2.1
      rw [State.row, hm] at h
      simp at h
    | settle before live =>
      obtain ⟨hl, hn, -⟩ := hg.2 k c.id hr.1
      exact .unlisted rfl hr.1 hl (hn hr.2)
    | dropClaim key id =>
      obtain ⟨rfl, rfl⟩ := hr
      exact .dropped rfl hg.1 hg.2.1 hg.2.2.1
    | adoptExistingClaim key pod =>
      obtain ⟨rfl, hs, ha⟩ := hr
      exact .superseded rfl hg.1 hs ha
    | withdrawClaim key id =>
      obtain ⟨rfl, rfl⟩ := hr
      exact .withdrawn rfl hg.1 hg.2.1
    | insertClaim key pod c₀ =>
      obtain rfl : k = key := hr
      have hn := hg.2.2.2.1
      rw [h] at hn
      cases hn
    | withdrawForRelease key c₀ =>
      obtain ⟨rfl, hw⟩ := hr
      obtain ⟨cur, hcur, hid, hp⟩ := Memory.withdrawable_iff.mp hw
      obtain rfl : cur = c := Option.some.inj (hcur.symm.trans h)
      obtain ⟨ht, hau, hseen, hcur'⟩ := hg
      obtain ⟨hsame, hs⟩ := hcur' cur h hid
      exact .rechecked rfl ht hsame hs hp hau hseen
    | _ => exact hr.elim

/-- **Where a row comes from**: an edit, or the record of a fresh claim. -/
theorem row_back (hg : SectionGuard cfg s t a) (hs : ¬ a.Startup)
    (h : (a.run s.mem).claims.lookup k = some c') :
    (∃ c, s.row k = some c ∧ c.Same c' ∧ (k ∈ (a.run s.mem).tentative → k ∈ s.mem.tentative) ∧
      (k ∈ (a.run s.mem).quarantined → k ∈ s.mem.quarantined)) ∨
    ∃ pod, a = .insertClaim k pod c' := by
  obtain ⟨c, hc, hsame⟩ | hcr := Section.row_back h
  · by_cases hins : ∃ pod c₀, a = .insertClaim k pod c₀
    · obtain ⟨pod, c₀, rfl⟩ := hins
      have hn : s.row k = none := hg.2.2.2.1
      rw [State.row, hc] at hn
      cases hn
    · refine .inl ⟨c, hc, hsame, fun ht => ?_, fun hq => ?_⟩
      · exact (Section.tentative_back ht).resolve_right hins
      · obtain ⟨rfl, -⟩ | ⟨hq, -⟩ := Section.quarantined_back hq
        · exact absurd trivial hs
        · exact hq
  · cases a with
    | load st now => exact absurd trivial hs
    | insertClaim key pod c₀ =>
      obtain ⟨rfl, rfl⟩ := hcr
      exact .inr ⟨pod, rfl⟩
    | _ => exact hcr.elim

/-- Where a credential comes from: it was in the tables, in the hand of `CreatePod`, or in the
file. -/
theorem holds_back (hg : SectionGuard cfg s t a) {cr : Credential}
    (h : (a.run s.mem).all.Holds cr) : s.mem.all.Holds cr ∨
      (∃ k pod c, a = .insertClaim k pod c ∧ c.cred = cr) ∨
      ∃ st now, a = .load st now ∧ st.Holds cr := by
  obtain ⟨k, c, hk, rfl⟩ | ⟨c, hc, rfl⟩ := h
  · obtain ⟨c₀, h₀, hsame⟩ | hcr := Section.row_back hk
    · exact .inl (.inl ⟨k, c₀, h₀, hsame.cred.symm⟩)
    · cases a with
      | load st now =>
        obtain ⟨c₀, at₀, h₀, rfl⟩ := Memory.row_load hcr
        exact .inr (.inr ⟨st, now, rfl, .inl ⟨k, c₀, h₀, rfl⟩⟩)
      | insertClaim key pod c₀ =>
        obtain ⟨rfl, rfl⟩ := hcr
        exact .inr (.inl ⟨k, pod, c, rfl, rfl⟩)
      | _ => exact hcr.elim
  · obtain h | ⟨st, now, rfl, hm⟩ | ⟨key, pod, -, h, -⟩ | ⟨key, rfl, hw⟩ :=
      Section.releasing_back hc
    · exact .inl (Memory.holds_queued h)
    · exact .inr (.inr ⟨st, now, rfl, .inr ⟨c, hm, rfl⟩⟩)
    · exact .inl (Memory.holds_row h)
    · obtain ⟨cur, hcur, hid, -⟩ := Memory.withdrawable_iff.mp hw
      refine .inl (.inl ⟨key, cur, hcur, ?_⟩)
      exact (hg.2.2.2 cur hcur hid).1.cred

/-- **Nothing becomes durable in a section**, but the row whose commit has just landed and the rows
that come from the file. -/
theorem durable_back (hg : SectionGuard cfg s t a) {cr : Credential}
    (h : ((a.run s.mem).snapshot none).Holds cr) : (s.mem.snapshot none).Holds cr ∨
      (∃ k c, a = .clearTentative k ∧ s.row k = some c ∧ c.cred = cr) ∨
      ∃ st now, a = .load st now ∧ st.Holds cr := by
  obtain ⟨k, c, hk, ht, rfl⟩ | ⟨c, hc, rfl⟩ := Memory.holds_durable.mp h
  · by_cases hl : ∃ st now, a = .load st now
    · obtain ⟨st, now, rfl⟩ := hl
      obtain ⟨c₀, at₀, h₀, rfl⟩ := Memory.row_load hk
      exact .inr (.inr ⟨st, now, rfl, .inl ⟨k, c₀, h₀, rfl⟩⟩)
    · obtain ⟨c₀, h₀, hsame⟩ | hcr := Section.row_back hk
      · by_cases ht₀ : k ∈ s.mem.tentative
        · obtain ht' | ⟨id, rfl⟩ | rfl := Section.tentative_forward (a := a) ht₀
          · exact absurd ht' ht
          · obtain ⟨hk', hne⟩ := Memory.row_withdrawClaim.mp hk
            exact absurd (hg.2.2.1 c hk') (hne rfl)
          · exact .inr (.inl ⟨k, c₀, rfl, h₀, hsame.cred.symm⟩)
        · exact .inl (Memory.holds_durable.mpr (.inl ⟨k, c₀, h₀, ht₀, hsame.cred.symm⟩))
      · cases a with
        | load st now => exact absurd ⟨st, now, rfl⟩ hl
        | insertClaim key pod c₀ =>
          obtain ⟨rfl, -⟩ := hcr
          exact absurd (Finset.mem_insert_self k _) ht
        | _ => exact hcr.elim
  · have hrow : ∀ {k c₀}, s.row k = some c₀ → s.mem.settled k → c₀.cred = c.cred →
        (s.mem.snapshot none).Holds c.cred := fun h₀ hs he =>
      Memory.holds_durable.mpr (.inl ⟨_, _, h₀, (Memory.settled_eq_true.mp hs).1, he⟩)
    obtain h | ⟨st, now, rfl, hm⟩ | ⟨key, pod, -, h, hs, -⟩ | ⟨key, rfl, hw⟩ :=
      Section.releasing_back hc
    · exact .inl (Memory.holds_durable.mpr (.inr ⟨c, h, rfl⟩))
    · exact .inr (.inr ⟨st, now, rfl, .inr ⟨c, hm, rfl⟩⟩)
    · exact .inl (hrow h hs rfl)
    · obtain ⟨cur, hcur, hid, -⟩ := Memory.withdrawable_iff.mp hw
      obtain ⟨hsame, hs⟩ := hg.2.2.2 cur hcur hid
      exact .inl (hrow hcur hs hsame.cred)

/-- Nor does a key's row. -/
theorem settling (hg : SectionGuard cfg s t a) (hs : ¬ a.Startup)
    (hclear : ∀ k, a ≠ .clearTentative k) : Settling s.mem (a.run s.mem) where
  holds := fun hcr => by
    obtain h | ⟨k, c, he, -⟩ | ⟨st, now, rfl, -⟩ := hg.durable_back hcr
    · exact h
    · exact absurd he (hclear k)
    · exact absurd trivial hs
  keys := fun {k c'} hc ht => by
    obtain ⟨c, hc₀, -⟩ | ⟨pod, rfl⟩ := hg.row_back hs hc
    · refine ⟨c, hc₀, fun ht₀ => ?_⟩
      obtain ht' | ⟨id, rfl⟩ | he := Section.tentative_forward (a := a) ht₀
      · exact ht ht'
      · obtain ⟨hc', hne⟩ := Memory.row_withdrawClaim.mp hc
        exact hne rfl (hg.2.2.1 c' hc')
      · exact hclear k he
    · exact absurd (Finset.mem_insert_self _ _) ht

end SectionGuard

/-- Only the record of a fresh claim empties the hand of its `CreatePod`. -/
theorem Ledger.inHand_progressAfter {a : Section} {s : State} {l : Ledger} {k : Key} :
    (l.progressAfter a s k).inHand = (l.progress k).inHand ∨
      (l.progressAfter a s k).inHand = none ∧ ∃ pod c, a = .insertClaim k pod c := by
  cases a with
  | adoptExistingClaim key pod =>
    refine .inl ?_
    simp only [progressAfter, Function.update_apply]
    split
    · next h => subst h; cases s.mem.adopted k pod <;> rfl
    · rfl
  | insertClaim key pod c =>
    simp only [progressAfter, Function.update_apply]
    split
    · next h => subst h; exact .inr ⟨rfl, pod, c, rfl⟩
    · exact .inl rfl
  | withdrawClaim key id | preserveClaim key id owner | dropClaim key id =>
    refine .inl ?_
    simp only [progressAfter, Function.update_apply]
    split
    · next h => subst h; rfl
    · rfl
  | _ => exact .inl rfl

/-- A create that has found nothing to adopt stays one. -/
theorem Ledger.declined_progressAfter {a : Section} {s : State} {l : Ledger} {k : Key}
    (h : (l.progress k).declined = true) : (l.progressAfter a s k).declined = true := by
  cases a with
  | adoptExistingClaim key pod =>
    simp only [progressAfter, Function.update_apply]
    split
    · next hk => subst hk; cases s.mem.adopted k pod <;> simp [h]
    · exact h
  | insertClaim key pod c | withdrawClaim key id | preserveClaim key id owner | dropClaim key id =>
    simp only [progressAfter, Function.update_apply]
    split
    · next hk => subst hk; exact h
    · exact h
  | _ => exact h

/-- A section either leaves the time a row last changed hands, or sets it to the version it
makes. -/
theorem Ledger.touched_progressAfter {a : Section} {s : State} {l : Ledger} {k : Key} :
    (l.progressAfter a s k).touched = (l.progress k).touched ∨
      (l.progressAfter a s k).touched = s.instant + 1 := by
  cases a with
  | load st now => exact .inr rfl
  | adoptExistingClaim key pod | insertClaim key pod c | withdrawClaim key id
  | preserveClaim key id owner | dropClaim key id =>
    simp only [progressAfter, Function.update_apply]
    split
    · exact .inr rfl
    · exact .inl rfl
  | _ => exact .inl rfl

/-- A call does not change when the rows last changed hands. -/
theorem Ledger.touched_begin {l : Ledger} {t : Tid} {op : Op} {n : ℕ} (k : Key) :
    ((l.begin t op n).progress k).touched = (l.progress k).touched := by
  simp only [Ledger.begin]
  split
  · rw [Function.update_apply]
    split
    · next h => rw [h]
    · rfl
  · rfl

end VkSandbox
