import VkSandbox.Provider.Keeps

/-!
# Provider/Interference — what a guarded event means to the other threads

`Evolves` holds of every event of a running process, whoever performs it.  `Own k` and `Private t`
hold of the events of *other* threads: a key's rows, Pods and markers belong to the key's queue, and
the disk to the holder of the save lock.
-/

namespace VkSandbox

open Interleave

variable {cfg : Config} {s s' : State} {t u : Tid} {a : Section} {k : Key} {c c' : Claim}

/-! ## Every event -/

/-- The events that do not open or close a process. -/
def Steady : Ev → Prop
  | .started t _ | .finished t _ _ => t ≠ .boot
  | .locked _ a => ¬ a.Startup
  | .asked _ .readFile _ => False
  | .crashed => False
  | _ => True

/-- Whatever a thread other than `New` does is steady. -/
theorem Guard.steady {ev : Ev} (hg : Guard cfg ev s) (hu : ev.tid = some u) (hb : u ≠ .boot) :
    Steady ev := by
  cases ev with
  | started t op => cases hu; exact hb
  | read t => trivial
  | locked t a => cases hu; exact hg.2.not_startup hb
  | asked t e r =>
    cases hu
    cases e with
    | readFile => exact hb hg.2.1
    | _ => trivial
  | finished t op r => cases hu; exact hb
  | crashed => cases hu

theorem Evolves.locked (hi : Inv cfg s) (hg : SectionGuard cfg s t a) (hs : ¬ a.Startup) :
    Evolves s (s.entered a) :=
  { Evolves.refl s with
    instant := Nat.le_succ _
    memAt := State.memAt_setMem
    rows := fun {k c'} hc => by
      obtain h | ⟨pod, rfl⟩ := hg.row_back hs hc
      · exact .inl h
      · obtain ⟨res, now, hr, rfl⟩ := hg.inHand
        exact .inr (hi.hand hr).2.2.2.2 }

theorem Evolves.asked {e : Request} {r : Reply e} (hg : AskGuard cfg s t e r)
    (hr : e ≠ .readFile) (h : answer t e r s = some s') : Evolves s s' := by
  cases e with
  | now => rw [← (answer_now h).1]; exact .refl s
  | rangeOver keys =>
    simp only [answer] at h
    split at h
    · cases h; exact .refl s
    · cases h
  | sendClaim spec => cases h; exact .refl s
  | claim spec =>
    cases r with
    | error err => cases h; exact .refl s
    | ok res =>
      simp only [answer] at h
      split at h
      · cases h
      · cases h; exact { Evolves.refl s with issued := Finset.subset_insert _ _ }
  | sendRelease id token => cases h; exact { Evolves.refl s with sent := Finset.subset_insert _ _ }
  | release id token =>
    cases r with
    | error err => cases h; exact .refl s
    | ok x => cases h; exact { Evolves.refl s with released := Finset.subset_insert _ _ }
  | sendList => cases h; exact { Evolves.refl s with }
  | sandboxes =>
    cases r with
    | error err => cases h; exact { Evolves.refl s with listFailed := fun _ => rfl }
    | ok listed =>
      cases h
      exact { Evolves.refl s with
        missed := Finset.subset_union_left
        vouched := Finset.subset_union_left }
  | getOwner key gvr ns name =>
    cases h; exact { Evolves.refl s with reads := List.subset_cons_self _ _ }
  | notify pod => cases h; exact { Evolves.refl s with }
  | lockSave =>
    simp only [answer] at h
    split at h
    · cases h; exact { Evolves.refl s with }
    · cases h
  | unlockSave =>
    simp only [answer] at h
    split at h
    · cases h; exact { Evolves.refl s with }
    · cases h
  | mkdirAll =>
    cases r with
    | error err => cases h; exact { Evolves.refl s with writeFailed := fun h => by cases h }
    | ok x => cases h; exact .refl s
  | writeFile st =>
    cases r with
    | error err => cases h; exact { Evolves.refl s with writeFailed := fun h => by cases h }
    | ok x => cases h; exact { Evolves.refl s with }
  | rename =>
    cases r with
    | error err => cases h; exact { Evolves.refl s with writeFailed := fun h => by cases h }
    | ok x =>
      obtain ⟨d, hd, rfl⟩ := answer_rename h
      obtain ⟨-, -, d', hd'⟩ := hg
      obtain rfl : d' = d := Option.some.inj (hd'.tmp.symm.trans hd)
      exact { Evolves.refl s with disk := fun hn => ⟨d'.instant, rfl, hd'.later _ hn⟩ }
  | readFile => exact absurd rfl hr

/-- **Every steady event keeps what was.** -/
theorem Evolves.of_event {ev : Ev} (hi : Inv cfg s) (hg : Guard cfg ev s) (hs : Steady ev)
    (h : apply ev s = some s') : Evolves s s' := by
  cases ev with
  | started t op =>
    obtain ⟨rfl, -⟩ | ⟨-, -, -, -, rfl⟩ := apply_started h
    · exact absurd rfl hs
    · exact { Evolves.refl s with }
  | read t => cases h; exact { Evolves.refl s with }
  | locked t a => cases h; exact .locked hi hg.2 hs
  | asked t e r => exact .asked hg.2 (by rintro rfl; exact hs) h
  | finished t op r =>
    cases t with
    | boot => exact absurd rfl hs
    | _ => cases h; exact { Evolves.refl s with }
  | crashed => exact hs.elim

/-! ## Other threads and a key -/

/-- The key whose queue alone goes through a section. -/
def Section.queueKey : Section → Option Key
  | dropClaim key _ | adoptExistingClaim key _ | withdrawClaim key _ | insertClaim key _ _
  | clearTentative key | updatePod key _ | forgetPod key | preserveClaim key _ _ => some key
  | _ => none

theorem SectionGuard.queue (hg : SectionGuard cfg s t a) (h : a.queueKey = some k) :
    t = .lifecycle k := by
  cases a <;> first | (cases h; done) | (cases h; exact hg.1)

/-- Another thread leaves a row's fields alone, but for its deadline. -/
theorem SectionGuard.deadline_only (hi : Inv cfg s) (hg : SectionGuard cfg s t a)
    (hs : ¬ a.Startup) (ht : a.queueKey ≠ some k) (h : (a.run s.mem).claims.lookup k = some c') :
    ∃ c, s.row k = some c ∧ c' = { c with deadline := c'.deadline } ∧
      (k ∈ s.mem.tentative → c' = c) := by
  have hsame : s.mem.claims.lookup k = some c' → ∃ c, s.row k = some c ∧
      c' = { c with deadline := c'.deadline } ∧ (k ∈ s.mem.tentative → c' = c) :=
    fun h => ⟨c', h, rfl, fun _ => rfl⟩
  have hne : ∀ {key}, a.queueKey = some key → k ≠ key := by
    rintro key hq rfl
    exact ht hq
  cases a with
  | load st now => exact absurd trivial hs
  | quarantineLoadedClaims => exact absurd trivial hs
  | settle before live =>
    obtain ⟨c, hc, ⟨hb, hrow⟩ | ⟨-, rfl⟩⟩ := Memory.row_settle.mp h
    · refine ⟨c, hc, (Memory.settleRow_eq_some hrow).2.2, fun hk => ?_⟩
      -- a tentative row is not one of the loaded rows a listing judges
      obtain ⟨c₁, h₁, hn⟩ := hi.tentative hk
      obtain rfl : c₁ = c := Option.some.inj (h₁.symm.trans hc)
      exact absurd (hg.2 k c₁.id hb).1 hn
    · exact hsame hc
  | dropClaim key id => exact hsame (Memory.row_dropClaim.mp h).1
  | refreshDeadline key id d =>
    obtain ⟨c, hc, rfl⟩ := Memory.row_refreshDeadline.mp h
    split
    · next he =>
      obtain ⟨rfl, he⟩ := he
      exact ⟨c, hc, rfl, fun hk => absurd hk (Memory.settled_eq_true.mp (hg.2 c hc he)).1⟩
    · exact ⟨c, hc, rfl, fun _ => rfl⟩
  | adoptExistingClaim key pod =>
    exact hsame ((Memory.row_adoptExistingClaim_ne (hne rfl)).symm.trans h)
  | withdrawClaim key id => exact hsame (Memory.row_withdrawClaim.mp h).1
  | insertClaim key pod c₀ =>
    obtain ⟨hk, -⟩ | ⟨-, hc⟩ := Memory.row_insertClaim.mp h
    · exact absurd hk (hne rfl)
    · exact hsame hc
  | updatePod key pod =>
    simp only [Section.run, Memory.updatePod] at h
    split at h <;> exact hsame h
  | preserveClaim key id owner =>
    obtain ⟨c, hc, rfl⟩ := Memory.row_preserveClaim.mp h
    rw [if_neg fun he => hne rfl he.1]
    exact ⟨c, hc, rfl, fun _ => rfl⟩
  | withdrawForRelease key c₀ => exact hsame (Memory.row_withdrawForRelease.mp h).1
  | setRecheck key r => cases r <;> exact hsame h
  | _ => exact hsame h

theorem Own.locked (hi : Inv cfg s) (hg : SectionGuard cfg s t a) (hs : ¬ a.Startup)
    (ht : a.queueKey ≠ some k) : Own k s (s.entered a) := by
  have hempty : s.row k = none → (a.run s.mem).claims.lookup k = none := fun hn => by
    cases hc : (a.run s.mem).claims.lookup k with
    | none => rfl
    | some c' =>
      obtain ⟨c, h, -⟩ := hg.deadline_only hi hs ht hc
      rw [hn] at h
      cases h
  have hkept : ∀ {c}, s.row k = some c →
      (∃ c', (a.run s.mem).claims.lookup k = some c' ∧ c' = { c with deadline := c'.deadline } ∧
        (k ∈ s.mem.tentative → c' = c)) ∨
      (a.run s.mem).claims.lookup k = none ∧ k ∉ s.mem.tentative ∧
        (c.id ∈ s.ledger.missed ∧ c.id ∈ s.ledger.loaded ∨ s.mem.pods.lookup k = none) := by
    intro c hc
    cases hc' : (a.run s.mem).claims.lookup k with
    | some c' =>
      obtain ⟨c₁, h₁, hrest⟩ := hg.deadline_only hi hs ht hc'
      obtain rfl : c₁ = c := Option.some.inj (h₁.symm.trans hc)
      exact .inl ⟨c', rfl, hrest⟩
    | none =>
      refine .inr ⟨rfl, ?_⟩
      obtain ⟨c', h, -⟩ | hend := hg.forward hc
      · rw [hc'] at h
        cases h
      · cases hend with
        | unlisted _ _ hl hk =>
          refine ⟨fun htent => ?_, .inl ⟨hk, hl⟩⟩
          obtain ⟨c₁, h₁, hn⟩ := hi.tentative htent
          obtain rfl : c₁ = c := Option.some.inj (h₁.symm.trans hc)
          exact hn hl
        | dropped h | superseded h | withdrawn h => exact absurd (by rw [h]; rfl) ht
        | rechecked _ _ _ hset hp => exact ⟨(Memory.settled_eq_true.mp hset).1, .inr hp⟩
  exact {
    pods := Section.pods_other fun hp => by
      cases a <;> first | (cases hp; done) | (cases hp; exact ht rfl)
    tentative := by
      constructor
      · intro hk
        obtain hk | ⟨pod, c, rfl⟩ := Section.tentative_back hk
        · exact hk
        · exact absurd rfl ht
      · intro hk
        obtain hk | ⟨id, rfl⟩ | rfl := Section.tentative_forward (a := a) hk
        · exact hk
        · exact absurd rfl ht
        · exact absurd rfl ht
    quarantined := fun hk => by
      obtain ⟨rfl, -⟩ | ⟨hk, -⟩ := Section.quarantined_back hk
      · exact absurd trivial hs
      · exact hk
    empty := hempty
    kept := fun hc => by
      obtain ⟨c', h, he, -⟩ | ⟨h, -, hwhy⟩ := hkept hc
      · exact .inl ⟨c'.deadline, h.trans (congrArg some he)⟩
      · exact .inr ⟨h, hwhy⟩
    fixed := fun hk => by
      obtain ⟨c, hc, -⟩ := hi.tentative hk
      obtain ⟨c', h, -, he⟩ | ⟨-, hn, -⟩ := hkept hc
      · exact h.trans ((congrArg some (he hk)).trans hc.symm)
      · exact absurd hk hn
    progress := by
      change s.ledger.progressAfter a s k = s.ledger.progress k
      cases a with
      | adoptExistingClaim key pod | insertClaim key pod c | withdrawClaim key id
      | preserveClaim key id owner | dropClaim key id =>
        have hne : k ≠ key := by
          rintro rfl
          exact ht rfl
        simp only [Ledger.progressAfter, Function.update_of_ne hne]
      | load st now => exact absurd trivial hs
      | _ => rfl }

/-- The tentative row of a key is released by its own queue only. -/
theorem ReleaseCause.own (hi : Inv cfg s) {cr : Credential} (h : ReleaseCause s t cr)
    (hk : k ∈ s.mem.tentative) (hc : s.row k = some c) (he : cr.id = c.id) : t = .lifecycle k := by
  cases h with
  | @undo k' pod c' _ _ hc' =>
    have := ((hi.tentativeOnly hk hc s.seen_mem).1 hc' he).1
    rw [this]
  | delete _ _ hm _ hc' _ =>
    have := ((hi.tentativeOnly hk hc ⟨_, hm⟩).1 hc' he).1
    rw [this]
  | queued hm hc' => exact absurd he ((hi.tentativeOnly hk hc hm).2 _ hc')

theorem Own.asked {e : Request} {r : Reply e} (ht : ∀ spec, e = .claim spec → k ≠ spec.claimRef)
    (h : answer t e r s = some s') : Own k s s' := by
  have ha := answered h
  have hrow : s'.row k = s.row k := by rw [State.row, ha.mem]; rfl
  exact {
    pods := by rw [ha.mem]
    tentative := by rw [ha.mem]
    quarantined := by rw [ha.mem]; exact id
    empty := hrow.trans
    kept := fun {c} hc => .inl ⟨c.deadline, hrow.trans hc⟩
    fixed := fun _ => hrow
    progress := ha.progress k ht }

/-- **A key's queue is alone with its key.** -/
theorem Own.of_event {ev : Ev} (hi : Inv cfg s) (hg : Guard cfg ev s) (hs : Steady ev)
    (hu : ev.tid = some u) (hne : u ≠ .lifecycle k) (h : apply ev s = some s') : Own k s s' := by
  cases ev with
  | started t op =>
    cases hu
    obtain ⟨rfl, -⟩ | ⟨-, -, -, -, rfl⟩ := apply_started h
    · exact absurd rfl hs
    · exact { Own.refl k s with
        progress := by
          change (s.ledger.begin _ op _).progress k = _
          simp only [Ledger.begin]
          split
          · exact Function.update_of_ne (fun he => hne (by rw [he])) _ _
          · rfl }
  | read t => cases h; exact { Own.refl k s with }
  | locked t a => cases hu; cases h; exact .locked hi hg.2 hs fun hq => hne (hg.2.queue hq)
  | asked t e r =>
    cases hu
    refine .asked ?_ h
    rintro spec rfl rfl
    exact hne hg.2.1
  | finished t op r =>
    cases t with
    | boot => exact absurd rfl hs
    | _ => cases h; exact { Own.refl k s with }
  | crashed => cases hu

/-- Nobody else releases a key's tentative row. -/
theorem Unsent.of_event {ev : Ev} (hi : Inv cfg s) (hg : Guard cfg ev s) (hs : Steady ev)
    (hu : ev.tid = some u) (hne : u ≠ .lifecycle k) (h : apply ev s = some s') : Unsent k s s' := by
  intro c hk hc hn
  cases ev with
  | started t op =>
    obtain ⟨rfl, -⟩ | ⟨-, -, -, -, rfl⟩ := apply_started h
    · exact absurd rfl hs
    · exact hn
  | read t | locked t a => cases h; exact hn
  | asked t e r =>
    cases hu
    by_cases he : ∃ id token, e = .sendRelease id token
    · obtain ⟨id, token, rfl⟩ := he
      cases h
      intro hsent
      rcases Finset.mem_insert.mp hsent with he | hsent
      · exact hne (hg.2.1.own hi hk hc he.symm)
      · exact hn hsent
    · rw [(answered h).sent fun id token heq => he ⟨id, token, heq⟩]
      exact hn
  | finished t op r =>
    cases t with
    | boot => exact absurd rfl hs
    | _ => cases h; exact hn
  | crashed => cases hu

/-! ## Other threads and a thread -/

theorem Private.asked {e : Request} {r : Reply e} (hg : AskGuard cfg s u e r) (hne : u ≠ t)
    (h : answer u e r s = some s') : Private t s s' := by
  have hother : s.saveMu = some u → s.saveMu ≠ some t := fun h h' =>
    hne (Option.some.inj (h.symm.trans h'))
  cases e with
  | now => rw [← (answer_now h).1]; exact .refl t s
  | rangeOver keys =>
    simp only [answer] at h
    split at h
    · cases h; exact .refl t s
    · cases h
  | sendClaim spec => cases h; exact .refl t s
  | claim spec =>
    cases r with
    | error err => cases h; exact .refl t s
    | ok res =>
      simp only [answer] at h
      split at h
      · cases h
      · cases h; exact { Private.refl t s with }
  | sendRelease id token => cases h; exact { Private.refl t s with }
  | release id token =>
    cases r <;> cases h
    · exact .refl t s
    · exact { Private.refl t s with }
  | sendList =>
    cases h
    exact { Private.refl t s with listing := Function.update_of_ne (Ne.symm hne) _ _ }
  | sandboxes => cases r <;> cases h <;> exact { Private.refl t s with }
  | getOwner key gvr ns name => cases h; exact { Private.refl t s with }
  | notify pod => cases h; exact { Private.refl t s with }
  | lockSave =>
    simp only [answer] at h
    split at h
    · next hm =>
      cases h
      exact { Private.refl t s with
        free := fun _ h => hne (Option.some.inj h)
        held := fun h => by rw [hm] at h; cases h }
    · cases h
  | unlockSave =>
    simp only [answer] at h
    split at h
    · next hm =>
      cases h
      exact { Private.refl t s with
        free := fun _ h => by cases h
        held := fun h => absurd h (hother hm) }
    · cases h
  | mkdirAll => cases r <;> cases h <;> exact { Private.refl t s with }
  | writeFile st =>
    cases r <;> cases h <;> exact { Private.refl t s with held := fun h => absurd h (hother hg) }
  | rename =>
    cases r with
    | error err => cases h; exact { Private.refl t s with }
    | ok x =>
      obtain ⟨d, -, rfl⟩ := answer_rename h
      exact { Private.refl t s with held := fun h => absurd h (hother hg.1) }
  | readFile =>
    cases r with
    | failed err => cases h; exact .refl t s
    | absent | undecodable err | decoded st =>
      simp only [answer] at h
      split at h
      · cases h; exact { Private.refl t s with }
      · cases h

/-- **A thread is alone with its call**, and with the disk while it holds the save lock. -/
theorem Private.of_event {ev : Ev} (hg : Guard cfg ev s) (hs : Steady ev) (hu : ev.tid = some u)
    (hne : u ≠ t) (h : apply ev s = some s') : Private t s s' := by
  have hupd : ∀ {β : Type} (f : Tid → β) (x : β), Function.update f u x t = f t := fun f x =>
    Function.update_of_ne (Ne.symm hne) x f
  cases ev with
  | started v op =>
    cases hu
    obtain ⟨rfl, -⟩ | ⟨-, -, -, -, rfl⟩ := apply_started h
    · exact absurd rfl hs
    · exact { Private.refl t s with calls := hupd _ _, readAt := hupd _ _ }
  | read v => cases hu; cases h; exact { Private.refl t s with readAt := hupd _ _ }
  | locked v a =>
    cases hu
    cases h
    exact { Private.refl t s with
      held := fun hm => ⟨hm, rfl, rfl, rfl, hg.2.settling hs fun k he => by
        subst he
        exact hne (Option.some.inj (hg.2.2.1.symm.trans hm))⟩ }
  | asked v e r => cases hu; exact .asked hg.2 hne h
  | finished v op r =>
    cases hu
    cases u with
    | boot => exact absurd rfl hs
    | _ => cases h; exact { Private.refl t s with calls := hupd _ _ }
  | crashed => cases hu

/-! ## The interference a thread allows for -/

theorem State.Live.eq_up (h : s.Live t) (ht : t ≠ .boot) : s.phase = .up := by
  cases t with
  | boot => exact absurd rfl ht
  | _ => exact h

theorem Guard.live {ev : Ev} (hg : Guard cfg ev s) (hu : ev.tid = some u)
    (hst : ∀ op, ev ≠ .started u op) : s.Live u := by
  cases ev with
  | started t op => cases hu; exact absurd rfl (hst op)
  | read t => cases hu; exact hg
  | locked t a | asked t e r | finished t op r => cases hu; exact hg.1
  | crashed => cases hu

/-- `New` is alone while it runs, and nobody but `New` runs before it returns. -/
theorem Guard.up_or_booting {ev : Ev} (hg : Guard cfg ev s) (h : apply ev s = some s')
    (hu : ev.tid = some u) : u = .boot ∧ s.phase ≠ .up ∨ u ≠ .boot ∧ s.phase = .up := by
  by_cases hst : ∃ op, ev = .started u op
  · obtain ⟨op, rfl⟩ := hst
    obtain ⟨rfl, -, hp, -⟩ | ⟨hb, hp, -⟩ := apply_started h
    · exact .inl ⟨rfl, by rw [hp]; decide⟩
    · exact .inr ⟨hb, hp⟩
  · have hl := hg.live hu fun op he => hst ⟨op, he⟩
    by_cases hb : u = .boot
    · subst hb
      exact .inl ⟨rfl, by rw [State.live_boot.mp hl]; decide⟩
    · exact .inr ⟨hb, hl.eq_up hb⟩

/-- **A guarded event is interference every other thread allows for.** -/
theorem Rely.of_event {ev : Ev} (hi : Inv cfg s) (hg : Guard cfg ev s) (h : apply ev s = some s')
    (hu : ev.tid = some u) (hne : u ≠ t) : Rely t s s' := by
  intro hl
  obtain ⟨rfl, hp⟩ | ⟨hb, hp⟩ := hg.up_or_booting h hu
  · exact absurd (hl.eq_up (Ne.symm hne)) hp
  · have hs := hg.steady hu hb
    refine ⟨.of_event hi hg hs h, .of_event hg hs hu hne h, fun k hk => ?_, fun k hk => ?_, ?_⟩
    · exact .of_event hi hg hs hu (hk ▸ hne) h
    · exact .of_event hi hg hs hu (hk ▸ hne) h
    · rintro rfl
      exact absurd (hp.symm.trans hl) (by decide)

end VkSandbox
