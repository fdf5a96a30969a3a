import VkSandbox.Properties.StateWrites
import VkSandbox.Properties.Generations
import VkSandbox.Properties.Versions

/-!
# Properties/Replacement — a same-owner replacement after a restart

    row of k   c ──────── deadline ──────── c      crash      c ─ CreatePod ─ c
    file           c (any version since the last touch)   └─ load ─┘

The last section that touched a key decides whose its row is; since then only its deadline changes
(`SameHands`).  Once the call it was part of has returned, the file is a version no older
(`Mirrored`), so the file says the same as the tables.  A restart brings the row back; nothing but a
listing that lacks it, an owner that is gone, or a Pod it does not admit can end it (`Awaits`).

Which Pods it admits is what the last `CreatePod` recorded.  An `UpdatePod` replaces the tracked Pod
and leaves that alone.
-/

namespace VkSandbox

open Interleave

variable {cfg : Config} {s s' : State} {t : Tid} {a : Section} {k : Key} {c c' : Claim}
  {pod p : Pod} {ev : Ev} {id : String} {n : ℕ}

/-! ## Since the last touch -/

/-- Whose the row is: all of it that is not a time or an address. -/
def Claim.hands (c : Claim) : Credential × String × Option String × Option OwnerReference :=
  (c.cred, c.podUID, c.authority, c.owner)

/-- The sections that change hands at `k`. -/
def Section.Touches (a : Section) (k : Key) : Prop :=
  match a with
  | .adoptExistingClaim key _ | .insertClaim key _ _ | .withdrawClaim key _ | .preserveClaim key _ _
  | .dropClaim key _ => key = k
  | _ => False

/-- A section touches the key, loads the file, or leaves the progress of the key. -/
theorem Ledger.progressAfter_cases (a : Section) (s : State) (l : Ledger) (k : Key) :
    (¬ a.Touches k ∧ (∀ st now, a ≠ .load st now) ∧ l.progressAfter a s k = l.progress k) ∨
    (a.Touches k ∧ (l.progressAfter a s k).dirty = true ∧
      (l.progressAfter a s k).touched = s.instant + 1) ∨
    ∃ st now, a = .load st now ∧
      l.progressAfter a s k = { l.progress k with touched := s.instant + 1 } := by
  cases a with
  | load st now => exact .inr (.inr ⟨st, now, rfl, rfl⟩)
  | adoptExistingClaim key pod | insertClaim key pod c | withdrawClaim key id
  | preserveClaim key id owner | dropClaim key id =>
    simp only [progressAfter, Section.Touches, Function.update_apply]
    split
    · next hk => exact .inr (.inl ⟨hk.symm, rfl, rfl⟩)
    · next hk => exact .inl ⟨fun he => hk he.symm, by simp, rfl⟩
  | _ => exact .inl ⟨id, by simp, rfl⟩

/-- A section that neither touches the key nor loads the file changes no more of its row than the
deadline. -/
theorem Section.row_untouched {m : Memory} (ht : ¬ a.Touches k) (hload : ∀ st now, a ≠ .load st now)
    (h : (a.run m).claims.lookup k = some c') :
    ∃ c, m.claims.lookup k = some c ∧ c.hands = c'.hands := by
  obtain ⟨c, hc, hedit⟩ | hcr := Section.row_edit h
  · refine ⟨c, hc, ?_⟩
    cases hedit with
    | deadline d => rfl
    | rebind ha => exact absurd (by rw [ha]; rfl) ht
    | preserve ha => exact absurd (by rw [ha]; rfl) ht
  · cases a with
    | load st now => exact absurd rfl (hload st now)
    | insertClaim key pod c₀ => exact absurd hcr.1.symm ht
    | _ => exact hcr.elim

/-- Only sections touch. -/
theorem Effect.touched (he : Effect ev s s') (hno : ∀ t a, ev ≠ .locked t a) (k : Key) :
    (s'.ledger.progress k).touched = (s.ledger.progress k).touched := by
  obtain hp | ⟨op, -, -, hp⟩ | ⟨t, a, hev, -⟩ | ⟨t, spec, res, -, -, hp⟩ | ⟨-, hp⟩ := he.progress k
  · rw [hp]
  · rw [hp]
  · exact absurd hev (hno t a)
  · rw [hp]
  · rw [hp]

/-- **Since the last touch the row has been in the same hands.** -/
def SameHands (s : State) : Prop :=
  ∀ {k i m c₀ c}, (s.ledger.progress k).touched ≤ i → s.memAt i = some m →
    m.claims.lookup k = some c₀ → s.row k = some c → c₀.hands = c.hands

theorem SameHands.step (h : SameHands s) (hs : apply ev s = some s') : SameHands s' := by
  intro k i m c₀ c hle hm hc₀ hc
  obtain hold | ⟨rfl, rfl⟩ := (effect hs).memAt_cases hm
  swap
  · rw [Option.some.inj (hc₀.symm.trans hc)]
  by_cases hl : ∃ t a, ev = .locked t a
  · obtain ⟨t, a, rfl⟩ := hl
    cases hs
    change (s.ledger.progressAfter a s k).touched ≤ i at hle
    have hi := State.memAt_le hold
    obtain ⟨hno, hload, hp⟩ | ⟨-, -, htouch⟩ | ⟨st, now, -, hp⟩ :=
      Ledger.progressAfter_cases a s s.ledger k
    · obtain ⟨c₁, hc₁, hsame⟩ := Section.row_untouched hno hload hc
      exact (h (hp ▸ hle) hold hc₀ hc₁).trans hsame
    · omega
    · rw [hp] at hle
      exact absurd (hle.trans hi) (by simp)
  · have hl : ∀ t a, ev ≠ .locked t a := fun t a he => hl ⟨t, a, he⟩
    rw [(effect hs).touched hl] at hle
    obtain ⟨hmem, -⟩ | ⟨t, a, hev, -⟩ | ⟨-, hmem, -⟩ := (effect hs).tables
    · rw [State.row, hmem] at hc
      exact h hle hold hc₀ hc
    · exact absurd hev (hl t a)
    · rw [State.row, hmem] at hc
      simp at hc

/-! ## Once the call has returned -/

/-- No call in progress at `k` has touched it. -/
def State.Quiet (s : State) (k : Key) : Prop :=
  (s.ledger.calls (.lifecycle k)).isSome → (s.ledger.progress k).dirty = false

instance : Decidable (s.Quiet k) := inferInstanceAs (Decidable (_ → _))

/-- **What the file has**: every durable row, and those of the quiet keys as they are. -/
structure Mirrored (cfg : Config) (s : State) : Prop where
  caught : ∀ {k}, s.phase = .up → s.Quiet k → s.CaughtUp cfg k
  declined : ∀ {k}, (s.ledger.progress k).declined = true → (s.ledger.progress k).dirty = true
  keys : cfg.statePath → ∀ {k c}, s.row k = some c → k ∉ s.mem.tentative →
    ∃ c', s.content.claims.lookup k = some c'

/-- A section that touches a key is part of a call there, or leaves it no row. -/
theorem SectionGuard.touches (hg : SectionGuard cfg s t a) (ht : a.Touches k) :
    (s.ledger.calls (.lifecycle k)).isSome ∨ (a.run s.mem).claims.lookup k = none := by
  have hserves : ∀ {pod}, s.Serves (.lifecycle k) pod → (s.ledger.calls (.lifecycle k)).isSome := by
    rintro pod ⟨n, hn | hn⟩ <;> rw [hn] <;> rfl
  cases a with
  | adoptExistingClaim key pod | insertClaim key pod c =>
    obtain rfl := ht
    obtain ⟨rfl, -, hs, -⟩ := hg
    exact .inl (hserves hs)
  | dropClaim key id =>
    obtain rfl := ht
    obtain ⟨rfl, -, -, hcr, -⟩ := hg
    obtain ⟨pod, hs⟩ := hcr key rfl
    exact .inl (hserves hs)
  | preserveClaim key id owner =>
    obtain rfl := ht
    obtain ⟨rfl, pod, ⟨n, hn⟩, -⟩ := hg
    exact .inl (by rw [hn]; rfl)
  | withdrawClaim key id =>
    obtain rfl := ht
    refine .inr (Option.eq_none_iff_forall_ne_some.mpr fun c hc => ?_)
    obtain ⟨h₀, hne⟩ := Memory.row_withdrawClaim.mp hc
    exact hne rfl (hg.2.2.1 c h₀)
  | _ => exact ht.elim

namespace Mirrored

theorem declined_step (h : Mirrored cfg s) (hs : apply ev s = some s')
    (hd : (s'.ledger.progress k).declined = true) : (s'.ledger.progress k).dirty = true := by
  obtain hp | ⟨op, -, -, hp⟩ | ⟨t, a, -, hp⟩ | ⟨t, spec, res, -, -, hp⟩ | ⟨-, hp⟩ :=
    (effect hs).progress k <;> rw [hp] at hd ⊢
  · exact h.declined hd
  · cases hd
  · obtain ⟨-, -, hsame⟩ | ⟨-, hdirty, -⟩ | ⟨st, now, -, hsame⟩ :=
      Ledger.progressAfter_cases a s s.ledger k
    · rw [hsame] at hd ⊢
      exact h.declined hd
    · exact hdirty
    · rw [hsame] at hd ⊢
      exact h.declined hd
  · exact h.declined hd
  · cases hd

theorem keys_step (h : Mirrored cfg s) (hsp : cfg.statePath) (hg : Guard cfg ev s)
    (hs : apply ev s = some s') (hc : s'.row k = some c) (ht : k ∉ s'.mem.tentative) :
    ∃ c', s'.content.claims.lookup k = some c' := by
  obtain ⟨hm, -⟩ | ⟨t, a, rfl, -, -⟩ | ⟨-, hm, -⟩ := (effect hs).tables
  · rw [State.row, hm] at hc
    rw [hm] at ht
    obtain ⟨hf, -⟩ | ⟨t, u, d, rfl, hd, hf, -⟩ := (effect hs).file
    · rw [State.content, hf]
      exact h.keys hsp hc ht
    · obtain ⟨-, -, d', hren⟩ := hg.2
      obtain rfl : d' = d := Option.some.inj (hren.tmp.symm.trans hd)
      rw [State.content, hf]
      exact hren.keys hc ht
  · cases hs
    change ∃ c', s.content.claims.lookup k = some c'
    obtain ⟨c₀, h₀, -⟩ | hcr := Section.row_edit (a := a) (m := s.mem) hc
    · by_cases ht₀ : k ∈ s.mem.tentative
      · obtain ht' | ⟨id, rfl⟩ | rfl := Section.tentative_forward (a := a) ht₀
        · exact absurd ht' ht
        · obtain ⟨h₁, hne⟩ := Memory.row_withdrawClaim.mp hc
          exact absurd (hg.2.2.2.1 c h₁) (hne rfl)
        · obtain ⟨-, -, -, -, c₁, -, -, hfile, -⟩ := hg
          exact ⟨_, hfile hsp⟩
      · exact h.keys hsp h₀ ht₀
    · cases a with
      | load st now =>
        obtain ⟨c₀, at₀, h₀, -⟩ := Memory.row_load (m := s.mem) hc
        rw [State.content, hg.2.2.2.1]
        exact ⟨c₀, h₀⟩
      | insertClaim key pod c₁ =>
        obtain ⟨rfl, rfl⟩ := hcr
        exact absurd (Finset.mem_insert_self _ _) ht
      | _ => exact hcr.elim
  · rw [State.row, hm] at hc
    simp at hc

/-- An event that is no section leaves a quiet key quiet, unless a call there returns. -/
theorem caught_other (h : Mirrored cfg s) (hup : s.phase = .up) (hg : Guard cfg ev s)
    (hs : apply ev s = some s') (hl : ∀ t a, ev ≠ .locked t a) (hcrash : ev ≠ .crashed)
    (hq : s'.Quiet k) : s.CaughtUp cfg k := by
  by_cases hq₀ : s.Quiet k
  · exact h.caught hup hq₀
  obtain ⟨hsome, hdirty⟩ := Classical.not_imp.mp hq₀
  have hdirty : (s.ledger.progress k).dirty = true := by simpa using hdirty
  have hkept : (s'.ledger.progress k).dirty = true := by
    obtain hp | ⟨op, -, hnone, -⟩ | ⟨t, a, hev, -⟩ | ⟨t, spec, res, -, -, hp⟩ | ⟨hev, -⟩ :=
      (effect hs).progress k
    · rw [hp]
      exact hdirty
    · rw [hnone] at hsome
      cases hsome
    · exact absurd hev (hl t a)
    · rw [hp]
      exact hdirty
    · exact absurd hev hcrash
  obtain hsame | ⟨op, -, hnone, -⟩ | ⟨-, ⟨op, r, rfl⟩ | hev⟩ := (effect hs).calls (.lifecycle k)
  · rw [State.Quiet, hsame, hkept] at hq
    exact absurd (hq hsome) (by decide)
  · rw [hnone] at hsome
    cases hsome
  · exact hg.2.2.2.2.1 hdirty
  · exact absurd hev hcrash

/-- A section keeps a quiet key caught up. -/
theorem caught_locked (h : Mirrored cfg s) (hi : Inv cfg s) (hup : s.phase = .up)
    (hg : Guard cfg (.locked t a) s) (hq : (s.entered a).Quiet k) :
    (s.entered a).CaughtUp cfg k := by
  intro hsp hw hrow ht
  obtain ⟨c, hc⟩ := Option.isSome_iff_exists.mp hrow
  have hquiet : (s.ledger.calls (.lifecycle k)).isSome →
      (s.ledger.progressAfter a s k).dirty = false := hq
  change ∃ n, s.disk.instant = some n ∧ (s.ledger.progressAfter a s k).touched ≤ n
  obtain ⟨hno, hload, hp⟩ | ⟨htouch, hdirty, -⟩ | ⟨st, now, rfl, -⟩ :=
    Ledger.progressAfter_cases a s s.ledger k
  · rw [hp] at hquiet ⊢
    obtain ⟨c₀, h₀, -⟩ := Section.row_untouched hno hload hc
    refine h.caught hup hquiet hsp hw (by rw [State.row, h₀]; rfl) fun ht₀ => ?_
    obtain ht' | ⟨id, rfl⟩ | rfl := Section.tentative_forward (a := a) ht₀
    · exact ht ht'
    · exact hno rfl
    · -- a commit is part of a call that has touched its key
      obtain ⟨-, rfl, hmu, -, -, -, -, -, hdec⟩ := hg
      have hfalse := hquiet (hi.lockOwner hmu)
      rw [h.declined hdec] at hfalse
      cases hfalse
  · obtain hsome | hnone := hg.2.touches htouch
    · exact absurd (hdirty.symm.trans (hquiet hsome)) (by decide)
    · cases hc.symm.trans hnone
  · obtain ⟨hlive, rfl, -⟩ := hg
    cases hup.symm.trans hlive

theorem caught_step (h : Mirrored cfg s) (hi : Inv cfg s) (hg : Guard cfg ev s)
    (hs : apply ev s = some s') (hup : s'.phase = .up) (hq : s'.Quiet k) : s'.CaughtUp cfg k := by
  have he := effect hs
  obtain hp | ⟨-, -, hp⟩ | ⟨op, rfl, -⟩ | ⟨-, hp⟩ := he.phase
  · by_cases hl : ∃ t a, ev = .locked t a
    · obtain ⟨t, a, rfl⟩ := hl
      cases hs
      exact h.caught_locked hi hup hg hq
    have hl : ∀ t a, ev ≠ .locked t a := fun t a he => hl ⟨t, a, he⟩
    obtain ⟨hm, -⟩ | ⟨t, a, hev, -⟩ | ⟨-, -, -, hdown⟩ := he.tables
    · intro hsp hw hrow ht
      have hw₀ : s.ledger.writeFailed = false := by
        by_contra hne
        rw [he.writeFailed (by simpa using hne)] at hw
        cases hw
      rw [State.row, hm] at hrow
      rw [hm] at ht
      have hcrash : ev ≠ .crashed := by
        rintro rfl
        simp only [apply] at hs
        split at hs
        · cases hs
        · cases hs
          cases hup
      obtain ⟨n, hn, hle⟩ := h.caught_other (hp.symm.trans hup) hg hs hl hcrash hq hsp hw₀ hrow ht
      obtain ⟨n', hn', hle'⟩ := he.diskInstant_le hg hn
      exact ⟨n', hn', (he.touched hl k).trans_le (hle.trans hle')⟩
    · exact absurd hev (hl t a)
    · cases hup.symm.trans hdown
  · cases hup.symm.trans hp
  · intro hsp _ _ _
    obtain ⟨-, -, n, hn, -, hle⟩ := hg.2.2.2.1 hsp
    cases hs
    exact ⟨n, hn, hle k⟩
  · cases hup.symm.trans hp

theorem step (h : Mirrored cfg s) (hi : Inv cfg s) (hg : Guard cfg ev s)
    (hs : apply ev s = some s') :
    Mirrored cfg s' where
  caught := h.caught_step hi hg hs
  declined := h.declined_step hs
  keys := fun hsp _ _ hc ht => h.keys_step hsp hg hs hc ht

end Mirrored

section Runs

variable {file : File} {tr : List Ev}
  {x : Interleave.Config State Memory Section Request Reply Tid Op Outcome}

theorem Runs.mirrored (h : Runs cfg file tr x) : SameHands x.shared ∧ Mirrored cfg x.shared := by
  refine h.guarded.invariant (sound cfg) (inv_initial cfg file)
    (J := fun s => SameHands s ∧ Mirrored cfg s) ⟨?_, ?_, ?_, ?_⟩ ?_
  · intro k i m c₀ c _ _ _ hc
    simp [State.row, State.initial] at hc
  · intro k hup
    cases hup
  · intro k hd
    cases hd
  · intro _ k c hc
    simp [State.row, State.initial] at hc
  · rintro ev s s' hi ⟨hsame, hmir⟩ hg hs
    exact ⟨hsame.step hs, hmir.step hi hg hs⟩

/-- **The file says of a quiet key what the tables say**, times aside. -/
theorem Runs.file_hands (h : Runs cfg file tr x) (hsp : cfg.statePath) (hup : x.shared.phase = .up)
    (hw : x.shared.ledger.writeFailed = false) (hq : x.shared.Quiet k)
    (hc : x.shared.row k = some c) (ht : k ∉ x.shared.mem.tentative) :
    ∃ c', x.shared.content.claims.lookup k = some c' ∧ c'.hands = c.hands := by
  obtain ⟨hsame, hmir⟩ := h.mirrored
  obtain ⟨n, hn, hle⟩ := hmir.caught hup hq hsp hw (by rw [hc]; rfl) ht
  obtain ⟨c', hc'⟩ := hmir.keys hsp hc ht
  obtain ⟨m, c₀, hm, h₀, rfl⟩ := h.projected.row hn hc'
  exact ⟨_, hc', (show c₀.marshal.hands = c₀.hands from rfl).trans (hsame hle hm h₀ hc)⟩

end Runs

/-! ## Whom a row admits -/

/-- The row admits every Pod of this authority. -/
def Claim.Admits (c : Claim) (authority : String) : Prop := ∀ want ∈ c.answersTo, want = authority

instance (c : Claim) (authority : String) : Decidable (c.Admits authority) :=
  inferInstanceAs (Decidable (∀ want ∈ c.answersTo, want = authority))

theorem Claim.Admits.adoptableBy (h : c.Admits (authorityOf pod)) : c.adoptableBy pod := by
  unfold Claim.adoptableBy
  cases ha : c.answersTo with
  | none => rfl
  | some want => simp [h want ha]

theorem Claim.BoundTo.admits (h : c.BoundTo pod) : c.Admits (authorityOf pod) := by
  intro want hw
  rw [Claim.answersTo, h.owner, h.authority] at hw
  exact (Option.some.inj hw).symm

/-- The Pod an `UpdatePod` records. -/
def recording : Ev → Option (Key × Pod)
  | .locked _ (.updatePod key pod) => some (key, pod)
  | _ => none

/-- **An `UpdatePod` at `k` records a Pod whose authority the claim there admits.** -/
def UpdatesAgree (k : Key) (ev : Ev) (s : State) : Prop :=
  ∀ e ∈ recording ev, e.1 = k → ∀ c ∈ s.row k, c.Admits (authorityOf e.2)

instance (k : Key) (ev : Ev) (s : State) : Decidable (UpdatesAgree k ev s) :=
  inferInstanceAs (Decidable (∀ e ∈ recording ev, e.1 = k → ∀ c ∈ s.row k, _))

/-- **The row of `k` admits the authority of the Pod tracked there.** -/
def Admitting (k : Key) (s : State) : Prop :=
  ∀ {p c}, s.mem.pods.lookup k = some p → s.row k = some c → c.Admits (authorityOf p)

theorem Admitting.locked (h : Admitting k s) (hg : SectionGuard cfg s t a)
    (hC : UpdatesAgree k (.locked t a) s) (hp : (a.run s.mem).pods.lookup k = some p)
    (hc : (a.run s.mem).claims.lookup k = some c) : c.Admits (authorityOf p) := by
  by_cases ha : ∃ pod, a = .adoptExistingClaim k pod
  · -- the adopting Pod is tracked with the row it got
    obtain ⟨pod, rfl⟩ := ha
    simp only [Section.run] at hp hc
    obtain ⟨-, he, -⟩ | ⟨-, he, -⟩ | ⟨c, -, -, -, he, -⟩ | ⟨c, -, -, -, he, -⟩ :=
      Memory.adoptExistingClaim_cases k pod s.mem <;> rw [he] at hp hc
    · exact h hp hc
    · exact h hp hc
    · rw [Finmap.lookup_erase] at hc
      cases hc
    · rw [Finmap.lookup_insert] at hp hc
      cases hp
      cases hc
      exact Claim.BoundTo.admits ⟨rfl, rfl, rfl⟩
  obtain ⟨c₀, h₀, hedit⟩ | hcr := Section.row_edit hc
  · cases hedit with
    | deadline d =>
      obtain hold | he | rfl | ⟨pod, c₁, rfl, -⟩ := Section.pods_back hp
      · exact (h hold h₀ : c₀.Admits (authorityOf p))
      · exact absurd ⟨p, he⟩ ha
      · exact (hC _ rfl rfl c₀ h₀ : c₀.Admits (authorityOf p))
      · have hnone : s.row k = none := hg.2.2.2.1
        rw [State.row, h₀] at hnone
        cases hnone
    | rebind he => exact absurd ⟨_, he⟩ ha
    | preserve he =>
      subst he
      simp [Section.run, Memory.preserveClaim] at hp
  · cases a with
    | load st now =>
      have hp' : s.mem.pods.lookup k = some p := hp
      rw [hg.2.1] at hp'
      simp at hp'
    | insertClaim key pod c₀ =>
      obtain ⟨rfl, rfl⟩ := hcr
      obtain ⟨-, -, -, -, res, now, -, rfl, -⟩ := hg
      simp only [Section.run, Memory.insertClaim, Finmap.lookup_insert, Option.some.injEq] at hp
      rw [← hp]
      exact Claim.BoundTo.admits ⟨rfl, rfl, rfl⟩
    | _ => exact hcr.elim

theorem Admitting.step (h : Admitting k s) (hg : Guard cfg ev s) (hs : apply ev s = some s')
    (hC : UpdatesAgree k ev s) : Admitting k s' := by
  intro p c hp hc
  obtain ⟨hm, -⟩ | ⟨t, a, rfl, hm, -⟩ | ⟨-, hm, -⟩ := (effect hs).tables <;> rw [hm] at hp <;>
    rw [State.row, hm] at hc
  · exact h hp hc
  · exact h.locked hg.2 hC hp hc
  · simp at hc

/-- Pods are tracked while the provider runs. -/
def TrackedUp (s : State) : Prop := ∀ {k p}, s.mem.pods.lookup k = some p → s.phase = .up

theorem TrackedUp.step (h : TrackedUp s) (hg : Guard cfg ev s)
    (hs : apply ev s = some s') : TrackedUp s' := by
  intro k p hp
  obtain ⟨hm, -⟩ | ⟨t, a, rfl, hm, -⟩ | ⟨-, hm, -⟩ := (effect hs).tables <;> rw [hm] at hp
  · have hup := h hp
    obtain hsame | ⟨-, hdown, -⟩ | ⟨op, -, hup'⟩ | ⟨hend, -⟩ := (effect hs).phase
    · exact hsame.trans hup
    · cases hup.symm.trans hdown
    · exact hup'
    · by_cases hc : ev = .crashed
      · subst hc
        simp only [apply] at hs
        split at hs
        · cases hs
        · cases hs
          rw [← hm] at hp
          simp [State.crash, State.setMem] at hp
      · cases hup.symm.trans (booting_of_ends hend hg hc)
  · cases hs
    change s.phase = .up
    obtain hold | rfl | rfl | ⟨pod, c, rfl, -⟩ := Section.pods_back hp
    · exact h hold
    · obtain ⟨hlive, rfl, -⟩ := hg
      exact hlive
    · obtain ⟨hlive, rfl, -⟩ := hg
      exact hlive
    · obtain ⟨hlive, rfl, -⟩ := hg
      exact hlive
  · simp at hp

/-! ## After the crash -/

/-- At `k`, the sandbox `id`: kept for no owner, and `pod` may have it. -/
def Fits (k : Key) (pod : Pod) (id : String) : Key → Claim → Prop := fun k' c =>
  k' = k → c.id = id ∧ c.owner = none ∧ c.adoptableBy pod = true

/-- A listing that succeeds and contains `id`, or no listing at all. -/
def ListsWith (id : String) : Ev → Prop
  | .asked _ .sandboxes (.ok listed) => id ∈ listedIds listed
  | .asked _ .sandboxes (.error _) => False
  | _ => True

instance (id : String) (ev : Ev) : Decidable (ListsWith id ev) := by
  unfold ListsWith
  split <;> infer_instance

/-- The call that begins at `k`. -/
def calledAt (k : Key) : Ev → Option Op
  | .started (.lifecycle key) op => if key = k then some op else none
  | _ => none

/-- **The key `k` waits for `pod`**: since the instant `n` its row, in the file and once loaded, is
one `pod` may adopt, and no call there is for another Pod. -/
structure Awaits (cfg : Config) (k : Key) (pod : Pod) (id : String) (n : ℕ) (s : State) : Prop where
  rows : Upheld cfg n (Fits k pod id) s
  file : ∃ c, s.content.claims.lookup k = some c
  held : s.phase = .up → ∃ c, s.row k = some c
  tentative : k ∉ s.mem.tentative
  since : s.phase ≠ .down → n ≤ s.ledger.born ∧ id ∉ s.ledger.missed ∧ s.ledger.listFailed = false
  calls : ∀ {m op}, s.ledger.calls (.lifecycle k) = some (m, op) → op = .createPod pod
  declined : (s.ledger.progress k).declined = false

theorem Claim.adoptableBy_rebind (c : Claim) (pod : Pod) : (c.rebind pod).adoptableBy pod = true :=
  Claim.Admits.adoptableBy (Claim.BoundTo.admits ⟨rfl, rfl, rfl⟩)

/-- Only an adoption that finds nothing to adopt declines. -/
theorem Ledger.declined_back (a : Section) (s : State) (l : Ledger) (k : Key) :
    (l.progressAfter a s k).declined = (l.progress k).declined ∨
      ∃ pod, a = .adoptExistingClaim k pod ∧ s.mem.adopted k pod = none := by
  cases a with
  | adoptExistingClaim key pod =>
    simp only [progressAfter, Function.update_apply]
    split
    · next hk =>
      subst hk
      cases hado : s.mem.adopted k pod with
      | none => exact .inr ⟨pod, rfl, hado⟩
      | some c => exact .inl rfl
    · exact .inl rfl
  | insertClaim key pod c | withdrawClaim key id | preserveClaim key id owner | dropClaim key id =>
    simp only [progressAfter, Function.update_apply]
    split
    · next hk => rw [hk]; exact .inl rfl
    · exact .inl rfl
  | _ => exact .inl rfl

namespace Awaits

theorem serves (h : Awaits cfg k pod id n s) (hp : s.Serves (.lifecycle k) p) : p = pod := by
  obtain ⟨m, hm | hm⟩ := hp
  · cases h.calls hm
    rfl
  · cases h.calls hm

theorem not_deletes (h : Awaits cfg k pod id n s) : ¬ s.Deletes (.lifecycle k) p := by
  rintro ⟨m, hm⟩
  cases h.calls hm

/-- While the provider runs, its row is there. -/
theorem row (h : Awaits cfg k pod id n s) (hup : s.phase = .up) :
    ∃ c, s.row k = some c ∧ c.id = id ∧
    c.owner = none ∧ c.adoptableBy pod = true := by
  obtain ⟨c, hc⟩ := h.held hup
  exact ⟨c, hc, h.rows.row hc rfl⟩

/-- What `New` has recovered includes it. -/
theorem recovered (h : Awaits cfg k pod id n s) (hsp : cfg.statePath) (hp : s.phase ≠ .down)
    (hr : s.Recovered) : ∃ c, s.row k = some c := by
  obtain ⟨c, hc⟩ := h.file
  obtain hmiss | ⟨c', hc', -⟩ := hr.rows hc
  · rw [(h.rows.file hsp hc rfl).1] at hmiss
    exact absurd hmiss (h.since hp).2.1
  · exact ⟨c', hc'⟩

theorem rows_step (h : Awaits cfg k pod id n s) (hg : Guard cfg ev s) (hs : apply ev s = some s') :
    Upheld cfg n (Fits k pod id) s' := by
  refine h.rows.step (fun hq => hq) hg hs
    ⟨fun {t a k' c c'} hev hc hedit hq hk => ?_, fun _ hq => ?_, ?_⟩
  · subst hk
    obtain ⟨hid, ho, had⟩ := hq rfl
    cases hedit with
    | deadline d => exact ⟨hid, ho, had⟩
    | @rebind p ha _ _ =>
      subst ha
      subst hev
      obtain ⟨-, rfl, -, hserves, -⟩ := hg
      obtain rfl := h.serves hserves
      exact ⟨hid, rfl, Claim.adoptableBy_rebind c p⟩
    | preserve ha =>
      subst ha
      subst hev
      obtain ⟨-, rfl, p, hdel, -⟩ := hg
      exact absurd hdel h.not_deletes
  · split
    · exact hq
    · exact hq
  · rintro t k' p c rfl rfl
    obtain ⟨hlive, rfl, -, -, hnone, -⟩ := hg
    obtain ⟨c₀, h₀⟩ := h.held hlive
    rw [hnone] at h₀
    cases h₀

/-- Every write keeps the row in the file. -/
theorem file_step (h : Awaits cfg k pod id n s) (hsp : cfg.statePath) (hg : Guard cfg ev s)
    (hs : apply ev s = some s') :
    ∃ c, s'.content.claims.lookup k = some c := by
  obtain ⟨hf, -⟩ | ⟨t, u, d, rfl, hd, hf, -⟩ := (effect hs).file
  · rw [State.content, hf]
    exact h.file
  · obtain ⟨hlive, -, hrec, d', hren⟩ := hg
    obtain rfl : d' = d := Option.some.inj (hren.tmp.symm.trans hd)
    have hrow : ∃ c, s.row k = some c := by
      by_cases ht : t = .boot
      · subst ht
        have hphase : s.phase = .booting := hlive
        exact h.recovered hsp (by rw [hphase]; decide) (hrec rfl)
      · exact h.held (hlive.eq_up ht)
    obtain ⟨c, hc⟩ := hrow
    rw [State.content, hf]
    exact hren.keys hc h.tentative

/-- No section ends the row: not the listings, not the re-check, not a call of `k`. -/
theorem not_ending (h : Awaits cfg k pod id n s) (hl : cfg.lister) (hup : s.phase = .up)
    (hg : SectionGuard cfg s t a)
    (hcall : t = .lifecycle k → (s.ledger.calls (.lifecycle k)).isSome) (hc : s.row k = some c) :
    ¬ Ending cfg s t a k c := by
  obtain ⟨rfl, ho, had⟩ := h.rows.row hc rfl
  obtain ⟨hborn, hmiss, -⟩ := h.since (by rw [hup]; decide)
  intro hend
  cases hend with
  | unlisted _ _ _ hlack => exact hmiss hlack
  | dropped _ _ _ hlack => exact hmiss (hlack hl)
  | superseded ha _ _ hno =>
    subst ha
    obtain ⟨rfl, -, hserves, -⟩ := hg
    obtain rfl := h.serves hserves
    rw [had] at hno
    cases hno
  | withdrawn ha ht _ =>
    subst ha
    subst ht
    obtain ⟨⟨m, op⟩, hm⟩ := Option.isSome_iff_exists.mp (hcall rfl)
    obtain rfl := h.calls hm
    have hdec := (hg.2.2.2.1 pod ⟨m, .inl hm⟩).2
    rw [h.declined] at hdec
    cases hdec
  | rechecked _ _ _ _ _ _ hseen =>
    obtain ⟨m, ⟨i, hi, hm⟩, hp⟩ := hseen
    obtain ⟨hc₀, ho₀, -⟩ := Memory.lookup_preserved.mp hp
    rw [(h.rows.seen (hborn.trans hi) hm hc₀ rfl).2.1] at ho₀
    cases ho₀

theorem held_step (h : Awaits cfg k pod id n s) (hl : cfg.lister) (hsp : cfg.statePath)
    (hg : Guard cfg ev s) (hs : apply ev s = some s')
    (hcall : ∀ a, ev = .locked (.lifecycle k) a → (s.ledger.calls (.lifecycle k)).isSome)
    (hup : s'.phase = .up) : ∃ c, s'.row k = some c := by
  obtain hp | ⟨-, -, hp⟩ | ⟨op, rfl, -⟩ | ⟨-, hp⟩ := (effect hs).phase
  · have hup₀ : s.phase = .up := hp.symm.trans hup
    obtain ⟨c, hc⟩ := h.held hup₀
    obtain ⟨hm, -⟩ | ⟨t, a, rfl, hm, -⟩ | ⟨-, -, -, hdown⟩ := (effect hs).tables
    · exact ⟨c, by rw [State.row, hm]; exact hc⟩
    · obtain ⟨c', hc', -⟩ | hend := hg.2.forward hc
      · exact ⟨c', by rw [State.row, hm]; exact hc'⟩
      · refine absurd hend (h.not_ending hl hup₀ hg.2 (fun ht => ?_) hc)
        exact hcall a (by rw [ht])
    · cases hup.symm.trans hdown
  · cases hup.symm.trans hp
  · have hphase : s.phase = .booting := hg.1
    obtain ⟨c, hc⟩ := h.recovered hsp (by rw [hphase]; decide) (hg.2.2.2.1 hsp).1
    cases hs
    exact ⟨c, hc⟩
  · cases hup.symm.trans hp

theorem tentative_step (h : Awaits cfg k pod id n s) (hg : Guard cfg ev s)
    (hs : apply ev s = some s') :
    k ∉ s'.mem.tentative := by
  obtain ⟨hm, -⟩ | ⟨t, a, rfl, hm, -⟩ | ⟨-, hm, -⟩ := (effect hs).tables <;> rw [hm]
  · exact h.tentative
  · intro ht
    obtain hold | ⟨p, c, rfl⟩ := Section.tentative_back ht
    · exact h.tentative hold
    · obtain ⟨hlive, rfl, -, -, hnone, -⟩ := hg
      obtain ⟨c₀, h₀⟩ := h.held hlive
      rw [hnone] at h₀
      cases h₀
  · exact Finset.notMem_empty k

theorem since_step (h : Awaits cfg k pod id n s) (hg : Guard cfg ev s) (hs : apply ev s = some s')
    (hlist : ListsWith id ev) (hp : s'.phase ≠ .down) :
    n ≤ s'.ledger.born ∧ id ∉ s'.ledger.missed ∧ s'.ledger.listFailed = false := by
  by_cases hboot : ev = .started .boot .new
  · subst hboot
    obtain ⟨-, -, -, -, rfl⟩ | ⟨hb, -⟩ := apply_started hs
    · exact ⟨h.rows.le, Finset.notMem_empty id, rfl⟩
    · exact absurd rfl hb
  have he := effect hs
  have hp₀ : s.phase ≠ .down := by
    intro hdown
    obtain hsame | ⟨hev, -⟩ | ⟨op, rfl, -⟩ | ⟨-, hdown'⟩ := he.phase
    · exact hp (hsame.trans hdown)
    · exact hboot hev
    · cases hdown.symm.trans hg.1
    · exact hp hdown'
  obtain ⟨hborn, hmiss, hfail⟩ := h.since hp₀
  refine ⟨?_, fun hm => ?_, ?_⟩
  · obtain hb | ⟨hev, -⟩ := he.born
    · rw [hb]
      exact hborn
    · exact absurd hev hboot
  · obtain hold | ⟨t, listed, rfl, hno⟩ := he.missed_new hm
    · exact hmiss hold
    · exact hno hlist
  · by_contra hne
    obtain hold | ⟨t, err, rfl⟩ := he.listFailed_new (by simpa using hne)
    · rw [hfail] at hold
      cases hold
    · exact hlist

/-- Its own adoption is not declined. -/
theorem declined_step (h : Awaits cfg k pod id n s) (hg : Guard cfg ev s)
    (hs : apply ev s = some s') :
    (s'.ledger.progress k).declined = false := by
  obtain hp | ⟨op, -, -, hp⟩ | ⟨t, a, rfl, hp⟩ | ⟨t, spec, res, -, -, hp⟩ | ⟨-, hp⟩ :=
    (effect hs).progress k <;> rw [hp]
  · exact h.declined
  · obtain hsame | ⟨p, rfl, hnone⟩ := Ledger.declined_back a s s.ledger k
    · rw [hsame]
      exact h.declined
    · obtain ⟨hlive, rfl, -, hserves, hquar, -⟩ := hg
      obtain rfl := h.serves hserves
      obtain ⟨c, hc, -, -, had⟩ := h.row hlive
      have hset : s.mem.settled k := Memory.settled_eq_true.mpr ⟨h.tentative, hquar⟩
      rw [State.row] at hc
      simp [Memory.adopted, hc, hset, had] at hnone
  · exact h.declined

/-- Its calls queue nothing. -/
theorem releasing (h : Awaits cfg k pod id n s) (hup : s.phase = .up)
    (hg : SectionGuard cfg s (.lifecycle k) a) : (a.run s.mem).releasing = s.mem.releasing := by
  rw [Section.releasing_run]
  cases a with
  | load st now | withdrawForRelease key c | dequeue id => cases hg.1
  | adoptExistingClaim key p =>
    obtain ⟨hk, -, hserves, -⟩ := hg
    cases hk
    obtain rfl := h.serves hserves
    obtain ⟨c, hc, -, -, had⟩ := h.row hup
    rw [State.row] at hc
    simp [hc, had]
  | _ => rfl

/-- Its calls return nil, with its sandbox. -/
theorem returned (h : Awaits cfg k pod id n s)
    (hrt : ann pod annRuntime runtimeSandboxd = runtimeSandboxd) {op : Op}
    {e : Except ProviderError Unit} (hg : Guard cfg (.finished (.lifecycle k) op (.ofExcept e)) s) :
    op = .createPod pod ∧ Outcome.ofExcept e = .ok ∧ (s.ledger.progress k).bound = some id := by
  obtain ⟨hlive, -, ⟨m, hm⟩, -, -, hret⟩ := hg
  obtain rfl := h.calls hm
  obtain ⟨c, hc, hid, -⟩ := h.row hlive
  cases e with
  | error err =>
    obtain ⟨-, ⟨hno | hfail, -⟩ | ⟨hdec, -⟩⟩ := hret
    · exact absurd hrt hno
    · rw [(h.since (by rw [show s.phase = .up from hlive]; decide)).2.2] at hfail
      cases hfail
    · rw [h.declined] at hdec
      cases hdec
  | ok u =>
    obtain ⟨-, id', hcr⟩ := hret
    refine ⟨rfl, rfl, ?_⟩
    obtain ⟨c', hc', rfl, -⟩ | ⟨hnone, -⟩ := hcr.row
    · obtain rfl := Option.some.inj (hc.symm.trans hc')
      rw [← hid]
      exact hcr.bound
    · rw [hnone] at hc
      cases hc

theorem step (h : Awaits cfg k pod id n s) (hl : cfg.lister) (hsp : cfg.statePath)
    (hg : Guard cfg ev s) (hs : apply ev s = some s') (hlist : ListsWith id ev)
    (hstart : ∀ op ∈ calledAt k ev, op = .createPod pod)
    (hcall : ∀ a, ev = .locked (.lifecycle k) a → (s.ledger.calls (.lifecycle k)).isSome) :
    Awaits cfg k pod id n s' where
  rows := h.rows_step hg hs
  file := h.file_step hsp hg hs
  held := h.held_step hl hsp hg hs hcall
  tentative := h.tentative_step hg hs
  since := h.since_step hg hs hlist
  calls := fun hc => by
    obtain hold | ⟨rfl, -⟩ := (effect hs).calls_back hc
    · exact h.calls hold
    · exact hstart _ (by simp [calledAt])
  declined := h.declined_step hg hs

end Awaits

/-- Where a crash leaves a quiet key. -/
theorem Awaits.crashed (hs : apply .crashed s = some s')
    (hfile : s.content.claims.lookup k = some c') (hsame : c'.hands = c.hands) (ho : c.owner = none)
    (had : c.adoptableBy pod) : Awaits cfg k pod c.id s'.instant s' := by
  obtain ⟨hcred, huid, hauth, howner⟩ : c'.cred = c.cred ∧ c'.podUID = c.podUID ∧
      c'.authority = c.authority ∧ c'.owner = c.owner := by
    simpa [Claim.hands] using hsame
  have he := effect hs
  simp only [apply] at hs
  split at hs
  · cases hs
  · cases hs
    refine ⟨⟨fun {i m k' c₁} hle hm hc₁ => ?_, le_rfl, fun _ {k' c₁} hc₁ hk => ?_,
      fun _ => .inr (by simp [State.crash])⟩,
      ⟨c', hfile⟩, by simp [State.crash], Finset.notMem_empty k, fun hp => absurd rfl hp,
      by simp [State.crash], rfl⟩
    · obtain hold | ⟨-, rfl⟩ := he.memAt_cases hm
      · have hi := State.memAt_le hold
        simp only [State.crash, State.setMem, State.instant, List.length_cons] at hle hi
        omega
      · simp [State.crash, State.setMem] at hc₁
    · subst hk
      obtain rfl : c' = c₁ := Option.some.inj (hfile.symm.trans hc₁)
      refine ⟨congrArg Credential.id hcred, howner.trans ho, ?_⟩
      rw [Claim.adoptableBy, Claim.answersTo, howner, hauth, huid]
      exact had

/-- The calls of a queue return nil or an error. -/
theorem follows_outcome (cfg : Config) (k : Key) :
    Follows cfg (.lifecycle k) (fun _ _ _ _ => True) (fun _ _ r => ∃ e, r = .ofExcept e) := by
  intro op s s' h
  obtain ⟨he, -⟩ | hm := mayCall_of_started h
  · cases he
  cases op with
  | createPod pod | updatePod pod | deletePod pod =>
    exact Machine.Follows.map ((Machine.Follows.free (P := fun _ => True) trivial
      (fun _ _ _ _ => trivial) fun _ _ _ => trivial).mono fun _ e _ => ⟨e, rfl⟩)
  | _ => simp [mayCall] at hm

section Results

variable {file : File} {tr tr' : List Ev} {P : Pod}
  {x y w : Interleave.Config State Memory Section Request Reply Tid Op Outcome}

theorem Runs.admitting (h : Runs cfg file tr x)
    (hC : (machine cfg).Along (UpdatesAgree k) (State.initial file) tr) :
    Admitting k x.shared ∧ TrackedUp x.shared := by
  refine h.guarded.invariant_along (sound cfg) (inv_initial cfg file)
    (J := fun s => Admitting k s ∧ TrackedUp s) ⟨?_, ?_⟩ ?_ hC
  · intro p c hp
    simp [State.initial] at hp
  · intro k p hp
    simp [State.initial] at hp
  · rintro ev s s' hC - ⟨hadm, hup⟩ hg hs
    exact ⟨hadm.step hg hs hC, hup.step hg hs⟩

/-- A key that waits goes on waiting. -/
theorem Runs.awaits (h : Runs cfg file tr x) (hl : cfg.lister) (hsp : cfg.statePath)
    (ha : Awaits cfg k pod id n x.shared) (hrun : Run (machine cfg) x tr' w)
    (hstart : ∀ ev ∈ tr', ∀ op ∈ calledAt k ev, op = .createPod pod)
    (hlist : ∀ ev ∈ tr', ListsWith id ev) : Awaits cfg k pod id n w.shared := by
  induction hrun with
  | nil => exact ha
  | @snoc tr₁ x₁ ev x₂ h₁ hs ih =>
    have hrun₁ : Runs cfg file (tr ++ tr₁) x₁ := Run.append h h₁
    obtain ⟨hg, happ⟩ := hrun₁.next hs
    refine (ih (fun ev' hev => hstart ev' (List.mem_append_left _ hev))
      fun ev' hev => hlist ev' (List.mem_append_left _ hev)).step hl hsp hg happ
      (hlist ev (by simp)) (hstart ev (by simp)) ?_
    rintro a rfl
    obtain ⟨op, hin, -⟩ := hrun₁.locked (follows_outcome cfg k) hs
    obtain ⟨m, hm⟩ := hrun₁.calls_inCall hin
    rw [hm]
    rfl

/-- **A same-owner replacement keeps its sandbox across a restart.**  Let every write succeed up to
a crash at which `k` holds the settled claim `c`, which no delete has preserved, and tracks the Pod
`P`, with no call in progress at `k` that has changed the row, and let every `UpdatePod` of `k` so
far have recorded a Pod whose authority the claim there admits.  Whatever happens after the crash,
if every listing succeeds and contains `c.id` and every call that begins at `k` is `CreatePod` of a
Pod of this runtime with the authority of `P`, then `c` stays the row of `k`, no such call sends a
Claim or queues anything, and it returns nil, with `c.id`. -/
theorem replacement_adopts_after_restart (hl : cfg.lister) (hsp : cfg.statePath)
    (h : Runs cfg file tr x) (hw : x.shared.ledger.writeFailed = false)
    (hC : (machine cfg).Along (UpdatesAgree k) (State.initial file) tr)
    (hc : x.shared.mem.claimFor k = some c) (ho : c.owner = none)
    (hP : x.shared.mem.pods.lookup k = some P) (hq : x.shared.Quiet k)
    (hcrash : Step (machine cfg) x .crashed y) (hrun : Run (machine cfg) y tr' w)
    (hstart : ∀ ev ∈ tr', ∀ op ∈ calledAt k ev, op = .createPod pod)
    (hlist : ∀ ev ∈ tr', ListsWith c.id ev)
    (hrt : ann pod annRuntime runtimeSandboxd = runtimeSandboxd)
    (hauth : authorityOf pod = authorityOf P) :
    (w.shared.phase = .up → ∃ c', w.shared.row k = some c' ∧ c'.id = c.id) ∧
    ∀ ev w', Step (machine cfg) w ev w' →
      (∀ spec, ev ≠ .asked (.lifecycle k) (.sendClaim spec) ()) ∧
      (∀ a, ev = .locked (.lifecycle k) a → w'.shared.mem.releasing = w.shared.mem.releasing) ∧
      ∀ op r, ev = .finished (.lifecycle k) op r →
        op = .createPod pod ∧ r = .ok ∧ (w.shared.ledger.progress k).bound = some c.id := by
  obtain ⟨hset, hrow⟩ := Memory.claimFor_eq_some.mp hc
  obtain ⟨hadm, hup⟩ := h.admitting hC
  have had : c.adoptableBy pod := by
    have hadmits : c.Admits (authorityOf P) := hadm hP hrow
    rw [← hauth] at hadmits
    exact hadmits.adoptableBy
  obtain ⟨c₁, hc₁, hsame⟩ := h.file_hands hsp (hup hP) hw hq hrow (Memory.settled_eq_true.mp hset).1
  have hy : Runs cfg file (tr ++ [.crashed]) y := h.snoc hcrash
  have hwait : Awaits cfg k pod c.id y.shared.instant w.shared :=
    hy.awaits hl hsp (.crashed (h.next hcrash).2 hc₁ hsame ho had) hrun hstart hlist
  have hrun' : Runs cfg file (tr ++ [.crashed] ++ tr') w := Run.append hy hrun
  refine ⟨fun hup => ?_, fun ev w' hs => ⟨?_, ?_, ?_⟩⟩
  · obtain ⟨c', hc', hid, -⟩ := hwait.row hup
    exact ⟨c', hc', hid⟩
  · rintro spec rfl
    obtain ⟨-, ht, -, hdec⟩ := (hrun'.next hs).1
    obtain rfl : k = spec.claimRef := by
      cases ht
      rfl
    rw [hwait.declined] at hdec
    cases hdec
  · rintro a rfl
    obtain ⟨⟨hlive, hg⟩, happ⟩ := hrun'.next hs
    rw [← Option.some.inj happ]
    exact hwait.releasing hlive hg
  · rintro op r rfl
    obtain ⟨e, rfl⟩ := hrun'.finished (follows_outcome cfg k) hs
    exact hwait.returned hrt (hrun'.next hs).1

/-- The Claim an event sends. -/
def sentClaim : Ev → Option (Tid × ClaimSpec)
  | .asked t (.sendClaim spec) _ => some (t, spec)
  | _ => none

theorem sentClaim_eq_some {ev : Ev} {spec : ClaimSpec} (h : sentClaim ev = some (t, spec)) :
    ev = .asked t (.sendClaim spec) () := by
  cases ev with
  | asked u e r =>
    cases e with
    | sendClaim spec' => cases h; rfl
    | _ => cases h
  | _ => cases h

/-- What the crash finds at `k`: the settled claim of `id`, preserved by nobody, under a tracked Pod
of this authority, with no call in progress. -/
def State.HoldsFor (s : State) (k : Key) (id authority : String) : Prop :=
  (s.mem.claimFor k).map (fun c => (c.id, c.owner)) = some (id, none) ∧
    (s.mem.pods.lookup k).map authorityOf = some authority ∧
    (s.ledger.calls (.lifecycle k)).isNone = true ∧ s.ledger.writeFailed = false

instance {authority : String} : Decidable (s.HoldsFor k id authority) :=
  inferInstanceAs (Decidable (_ ∧ _ ∧ _ ∧ _))

/-- After the crash only `CreatePod` of `pod` is called at `k`, and every listing contains `id`. -/
def OnlyFor (k : Key) (pod : Pod) (id : String) (tr : List Ev) : Prop :=
  ∀ ev ∈ tr, (∀ op ∈ calledAt k ev, op = .createPod pod) ∧ ListsWith id ev

instance : Decidable (OnlyFor k pod id tr) :=
  inferInstanceAs
    (Decidable (∀ ev ∈ tr, (∀ op ∈ calledAt k ev, op = .createPod pod) ∧ ListsWith id ev))

/-- The next Pod of the same controller gets the sandbox back after the restart. -/
theorem replacement_adopts_after_restart_of_controller : ∃ tr x y tr' w w',
    Runs fullConfig .absent tr x ∧ Step (machine fullConfig) x .crashed y ∧
    Run (machine fullConfig) y tr' w ∧
    Step (machine fullConfig) w (.finished (.lifecycle "ns/p")
      (.createPod (samplePod "p" "u2" [sampleOwner "a1"])) .ok) w' ∧
    (w.shared.ledger.progress "ns/p").bound = some "s1" := by
  obtain ⟨tr, x, ev, y, tr', w, ev', w', hrun, hs, hrun', hs', hev, hev', hholds, hC, honly⟩ :=
    exists_steps_between fullConfig .absent
      (call .boot .new 10 {} ++
        call (.lifecycle "ns/p") (.createPod (samplePod "p" "u1" [sampleOwner "a1"])) 17
          { claimed := .ok (sampleResult "s1") })
      .crash
      (call .boot .new 15
          { file := .decoded
              (sampleFile "ns/p" (sampleClaim "s1" (samplePod "p" "u1" [sampleOwner "a1"])))
            listed := .ok [sampleSummary "s1"] } ++
        call (.lifecycle "ns/p") (.createPod (samplePod "p" "u2" [sampleOwner "a1"])) 11 {})
      (.move (.lifecycle "ns/p") (World.reply {}))
      (fun tr s ev tr' _ ev' => isCrash ev = true ∧
        returnedOk ev' =
          some (.lifecycle "ns/p", .createPod (samplePod "p" "u2" [sampleOwner "a1"])) ∧
        s.HoldsFor "ns/p" "s1" "a1" ∧
        (machine fullConfig).Along (UpdatesAgree "ns/p") (State.initial .absent) tr ∧
        OnlyFor "ns/p" (samplePod "p" "u2" [sampleOwner "a1"]) "s1" tr')
      (by decide +kernel)
  obtain rfl := isCrash_eq_true hev
  obtain rfl := returnedOk_eq_some hev'
  obtain ⟨hclaim, hpod, hnone, hw⟩ := hholds
  obtain ⟨c, hc, hco⟩ := Option.map_eq_some_iff.mp hclaim
  obtain ⟨P, hP, hPa⟩ := Option.map_eq_some_iff.mp hpod
  obtain ⟨hid, ho⟩ := Prod.mk.inj hco
  have hq : x.shared.Quiet "ns/p" :=
    fun hsome => by simp [Option.isNone_iff_eq_none.mp hnone] at hsome
  obtain ⟨-, -, hbound⟩ :=
    ((replacement_adopts_after_restart rfl rfl hrun hw hC hc ho hP hq hs hrun'
    (fun ev hev => (honly ev hev).1) (fun ev hev => by rw [hid]; exact (honly ev hev).2) (by decide)
    (by rw [hPa]; decide)).2 _ _ hs').2.2 _ _ rfl
  exact ⟨tr, x, y, tr', w, w', hrun, hs, hrun', hs', by rw [hbound, hid]⟩

/-- An `UpdatePod` that brings another controller is accepted and not recorded in the claim: after
the restart the next Pod of that controller has the claim queued, and sends a Claim of its own. -/
theorem updated_authority_not_recorded : ∃ tr x y tr' w w' c P spec,
    Runs fullConfig .absent tr x ∧ x.shared.ledger.writeFailed = false ∧
    x.shared.mem.claimFor "ns/p" = some c ∧ c.owner = none ∧
    x.shared.mem.pods.lookup "ns/p" = some P ∧
    x.shared.Quiet "ns/p" ∧ Step (machine fullConfig) x .crashed y ∧
    Run (machine fullConfig) y tr' w ∧
    OnlyFor "ns/p" (samplePod "p" "u2" [sampleOwner "a2"]) c.id tr' ∧
    authorityOf (samplePod "p" "u2" [sampleOwner "a2"]) = authorityOf P ∧
    (∃ q ∈ w.shared.mem.releasing, q.id = c.id) ∧
    Step (machine fullConfig) w (.asked (.lifecycle "ns/p") (.sendClaim spec) ()) w' := by
  obtain ⟨tr, x, ev, y, tr', w, ev', w', hrun, hs, hrun', hs', hev, hev', hholds, hq, honly⟩ :=
    exists_steps_between fullConfig .absent
      (call .boot .new 10 {} ++
        call (.lifecycle "ns/p") (.createPod (samplePod "p" "u1" [sampleOwner "a1"])) 17
          { claimed := .ok (sampleResult "s1") } ++
        call (.lifecycle "ns/p") (.updatePod (samplePod "p" "u1" [sampleOwner "a2"])) 3 {})
      .crash
      (call .boot .new 15
          { file := .decoded
              (sampleFile "ns/p" (sampleClaim "s1" (samplePod "p" "u1" [sampleOwner "a1"])))
            listed := .ok [sampleSummary "s1"] } ++
        call (.lifecycle "ns/p") (.createPod (samplePod "p" "u2" [sampleOwner "a2"])) 5 {})
      (.move (.lifecycle "ns/p") (World.reply {}))
      (fun _ s ev tr' s' ev' => isCrash ev = true ∧
        (sentClaim ev').map (·.1) = some (.lifecycle "ns/p") ∧
        s.HoldsFor "ns/p" "s1" "a2" ∧ (∃ q ∈ s'.mem.releasing, q.id = "s1") ∧
        OnlyFor "ns/p" (samplePod "p" "u2" [sampleOwner "a2"]) "s1" tr')
      (by decide +kernel)
  obtain rfl := isCrash_eq_true hev
  obtain ⟨⟨t, spec⟩, hsent, rfl⟩ := Option.map_eq_some_iff.mp hev'
  obtain rfl := sentClaim_eq_some hsent
  obtain ⟨hclaim, hpod, hnone, hw⟩ := hholds
  obtain ⟨c, hc, hco⟩ := Option.map_eq_some_iff.mp hclaim
  obtain ⟨P, hP, hPa⟩ := Option.map_eq_some_iff.mp hpod
  obtain ⟨hid, ho⟩ := Prod.mk.inj hco
  rw [← hid] at hq honly
  refine ⟨tr, x, y, tr', w, w', c, P, spec, hrun, hw, hc, ho, hP, fun hsome => ?_, hs, hrun',
    honly, ?_, hq, hs'⟩
  · simp [Option.isNone_iff_eq_none.mp hnone] at hsome
  · rw [hPa]
    decide

end Results

end VkSandbox
