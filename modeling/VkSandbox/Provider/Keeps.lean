import VkSandbox.Provider.Steps

/-!
# Provider/Keeps — guarded events keep the invariant

One lemma per kind of event.  The events that leave the tables alone touch a few fields of `Inv`
each; a write-locked section touches those about rows and markers, and there everything comes from
where a row can come from and how it can end.
-/

namespace VkSandbox

open Interleave

variable {cfg : Config} {s s' : State}

/-! ## The start -/

theorem inv_initial (cfg : Config) (file : File) : Inv cfg (State.initial file) := by
  have hseen : ∀ {m : Memory} {cr : Credential}, (State.initial file).Seen m →
      ¬ m.all.Holds cr := by
    rintro m cr ⟨n, hn⟩ h
    have hm : m ∈ ([{}] : List Memory) := List.mem_of_getElem? hn
    obtain rfl := List.mem_singleton.mp hm
    obtain ⟨k, c, hk, -⟩ | ⟨c, hc, -⟩ := h
    · simp [Memory.all] at hk
    · cases hc
  exact {
    down := fun _ => rfl
    booting := fun _ => rfl
    touched := fun _ => Nat.zero_le _
    tentative := fun h => absurd h (Finset.notMem_empty _)
    quarantined := fun h => absurd h (Finset.notMem_empty _)
    lister := fun h => absurd h (Finset.notMem_empty _)
    vouched := fun _ h => by cases h
    podKey := fun h => by simp [State.initial] at h
    issued := fun hm h => absurd h (hseen hm)
    fileIssued := fun h => StateFile.mem_creds.mpr h
    loadedIssued := Finset.empty_subset _
    sentIssued := Finset.empty_subset _
    listingIssued := fun _ => Finset.empty_subset _
    lackedIssued := Finset.empty_subset _
    missed := Finset.Subset.refl _
    born := Nat.zero_le _
    filedIssued := Finset.Subset.refl _
    filed := Finset.Subset.refl _
    releasedSent := Finset.Subset.refl _
    hand := fun h => by cases h
    handInj := fun h => by cases h
    tentativeOnly := fun h => absurd h (Finset.notMem_empty _)
    tentativeFiled := fun h => absurd h (Finset.notMem_empty _)
    diskInstant := fun h => by cases h
    idle := fun _ => rfl
    lockOwner := fun h => by cases h
    up := fun h => by cases h }

/-! ## Calls and reads -/

theorem Inv.read (hi : Inv cfg s) {t : Tid} (h : apply (.read t) s = some s') : Inv cfg s' := by
  cases h
  exact { hi with }

theorem Inv.started (hi : Inv cfg s) {t : Tid} {op : Op}
    (h : apply (.started t op) s = some s') : Inv cfg s' := by
  obtain ⟨rfl, rfl, hp, -, rfl⟩ | ⟨hb, hp, hm, hc, rfl⟩ := apply_started h
  · have hmem := hi.down hp
    have hhand : ∀ k, (s.ledger.progress k).inHand = none := fun k => by
      cases hk : (s.ledger.progress k).inHand with
      | none => rfl
      | some res => exact absurd ((hi.hand hk).1.symm.trans hp) (by decide)
    exact { hi with
      down := fun h => by cases h
      booting := fun _ => by change s.mem.tentative = ∅; rw [hmem]
      missed := Finset.empty_subset _
      born := le_rfl
      tentative := fun hk => by
        have hk : _ ∈ s.mem.tentative := hk
        rw [hmem] at hk
        cases hk
      quarantined := fun hk => by
        have hk : _ ∈ s.mem.quarantined := hk
        rw [hmem] at hk
        cases hk
      vouched := fun _ h => by cases h
      loadedIssued := Finset.empty_subset _
      hand := fun {k res} hk => by
        have hk : (s.ledger.progress k).inHand = some res := hk
        rw [hhand k] at hk
        cases hk
      idle := fun {k} _ => hhand k
      lockOwner := fun {t} ht => by
        have := hi.lockOwner ht
        by_cases h : t = .boot
        · subst h; simp [State.record, Ledger.boot, Ledger.begin]
        · simpa [State.record, Ledger.boot, Ledger.begin, h] using this
      up := fun {k} hk => by
        have hk : (s.ledger.calls (.lifecycle k)).isSome := by
          simpa [State.record, Ledger.boot, Ledger.begin] using hk
        exact absurd ((hi.up hk).symm.trans hp) (by decide) }
  · have hhand : ∀ {k res}, ((s.ledger.begin t op s.instant).progress k).inHand = some res →
        (s.ledger.progress k).inHand = some res := by
      intro k res hk
      simp only [Ledger.begin] at hk
      split at hk
      · next key =>
        rw [Function.update_apply] at hk
        split at hk
        · cases hk
        · exact hk
      · exact hk
    exact { hi with
      hand := fun hk => hi.hand (hhand hk)
      handInj := fun hk hk' => hi.handInj (hhand hk) (hhand hk')
      touched := fun k => (Ledger.touched_begin k).trans_le (hi.touched k)
      idle := fun {k} hk => by
        cases hr : ((s.ledger.begin t op s.instant).progress k).inHand with
        | none => exact hr
        | some res =>
          have hcalls : (s.ledger.calls (.lifecycle k)).isSome := by
            cases hc' : s.ledger.calls (.lifecycle k) with
            | none => have := hi.idle hc'; rw [hhand hr] at this; cases this
            | some _ => rfl
          have hk : Function.update s.ledger.calls t (some (s.ledger.count, op)) (.lifecycle k)
            = none := hk
          rw [Function.update_apply] at hk
          split at hk
          · cases hk
          · rw [hk] at hcalls; cases hcalls
      lockOwner := fun {u} hu => by
        have := hi.lockOwner hu
        change (Function.update s.ledger.calls t (some (s.ledger.count, op)) u).isSome
        rw [Function.update_apply]
        split
        · rfl
        · exact this
      up := fun _ => hp }

/-! ## The end of a call, and of the process -/

/-- Forgetting the tables adds no version that holds anything. -/
theorem State.seen_forget {m : Memory} {cr : Credential} (hm : (s.setMem {}).Seen m)
    (h : m.all.Holds cr) : s.Seen m := by
  rcases State.seen_setMem.mp hm with hm | rfl
  · exact hm
  · obtain ⟨k, c, hk, -⟩ | ⟨c, hc, -⟩ := h
    · simp [Memory.all] at hk
    · cases hc

/-- The tables are empty and the process is down: all that is left is history. -/
theorem Inv.forget (hi : Inv cfg s) (hm : s'.mem = {}) (hp : s'.phase = .down)
    (hs : ∀ m, s'.Seen m ↔ (s.setMem {}).Seen m) (hn : s'.instant = s.instant + 1)
    (hd : s'.disk = s.disk) (hl : s'.saveMu = none ∨ s'.saveMu = s.saveMu ∧
      ∀ t, s'.saveMu = some t → (s'.ledger.calls t).isSome)
    (hled : ∃ calls progress returned, s'.ledger =
      { s.ledger with calls := calls, progress := progress, returned := returned } ∧
      ∀ k, (progress k).inHand = none ∧ (progress k).touched = (s.ledger.progress k).touched)
    (hq : ∀ k, s'.ledger.calls (.lifecycle k) = none) : Inv cfg s' := by
  obtain ⟨calls, progress, returned, hled, hprog⟩ := hled
  have hhand := fun k => (hprog k).1
  obtain ⟨mem', disk', saveMu', phase', ledger', past'⟩ := s'
  dsimp only at hm hp hd hled hl
  subst hm hp hd hled
  exact { hi with
    down := fun _ => rfl
    booting := fun _ => rfl
    touched := fun k => by
      rw [show (progress k).touched = _ from (hprog k).2, hn]
      exact (hi.touched k).trans (Nat.le_succ _)
    born := hi.born.trans (by rw [hn]; exact Nat.le_succ _)
    tentative := fun h => absurd h (Finset.notMem_empty _)
    quarantined := fun h => absurd h (Finset.notMem_empty _)
    lister := fun h => absurd h (Finset.notMem_empty _)
    vouched := fun _ h => by cases h
    podKey := fun h => by simp at h
    issued := fun hm h => hi.issued (State.seen_forget ((hs _).mp hm) h) h
    hand := fun {k res} hk => by rw [show _ = _ from hhand k] at hk; cases hk
    handInj := fun {k k' res res'} hk => by rw [show _ = _ from hhand k] at hk; cases hk
    tentativeOnly := fun h => absurd h (Finset.notMem_empty _)
    tentativeFiled := fun h => absurd h (Finset.notMem_empty _)
    diskInstant := fun h => (hi.diskInstant h).trans (by rw [hn]; exact Nat.le_succ _)
    idle := fun {k} _ => hhand k
    lockOwner := fun {t} ht => by
      obtain hl | ⟨-, hl⟩ := hl
      · dsimp only at ht; rw [hl] at ht; cases ht
      · exact hl t ht
    up := fun {k} hk => by rw [hq k] at hk; cases hk }

theorem Inv.crashed (hi : Inv cfg s) (h : apply .crashed s = some s') : Inv cfg s' := by
  simp only [apply] at h
  split at h
  · cases h
  · cases h
    exact hi.forget rfl rfl (fun _ => Iff.rfl) rfl rfl (.inl rfl)
      ⟨_, _, _, rfl, fun _ => ⟨rfl, rfl⟩⟩ (fun _ => rfl)

theorem Inv.finished (hi : Inv cfg s) {t : Tid} {op : Op} {r : Outcome}
    (hg : Guard cfg (.finished t op r) s) (h : apply (.finished t op r) s = some s') :
    Inv cfg s' := by
  obtain ⟨hlive, hfree, -, hret⟩ := hg
  have hidle : ∀ {k}, (s.ledger.finish t op r).calls (.lifecycle k) = none →
      (s.ledger.progress k).inHand = none := by
    intro k hk
    by_cases ht : t = .lifecycle k
    · subst ht
      exact hret.1
    · refine hi.idle ?_
      simpa [Ledger.finish, Function.update_of_ne (Ne.symm ht)] using hk
  have howner : ∀ {u}, s.saveMu = some u → ((s.ledger.finish t op r).calls u).isSome := by
    intro u hu
    have hne : u ≠ t := by
      rintro rfl
      exact hfree hu
    simpa [Ledger.finish, Function.update_of_ne hne] using hi.lockOwner hu
  have hup : ∀ {k}, ((s.ledger.finish t op r).calls (.lifecycle k)).isSome → s.phase = .up := by
    intro k hk
    simp only [Ledger.finish, Function.update_apply] at hk
    split at hk
    · cases hk
    · exact hi.up hk
  have hi' : Inv cfg (s.record (·.finish t op r)) :=
    { hi with idle := hidle, lockOwner := howner, up := hup }
  by_cases ht : t = .boot
  · subst ht
    have hhand : ∀ k, (s.ledger.progress k).inHand = none := fun k => by
      cases hk : (s.ledger.progress k).inHand with
      | none => rfl
      | some res => exact absurd ((hi.hand hk).1.symm.trans hlive) (by decide)
    have hfail : ∀ r', Inv cfg { (s.record (·.finish .boot op r')).setMem {} with
        phase := .down } :=
      fun r' => hi.forget rfl rfl (fun _ => Iff.rfl) rfl rfl
        (.inr ⟨rfl, fun u hu => by
          have hne : u ≠ .boot := fun h => hfree (h ▸ hu)
          simpa [State.setMem, State.record, Ledger.finish, Function.update_of_ne hne]
            using hi.lockOwner hu⟩)
        ⟨_, _, _, rfl, fun k => ⟨hhand k, rfl⟩⟩ fun k => by
          cases hk : s.ledger.calls (.lifecycle k) with
          | none => simpa [State.setMem, State.record, Ledger.finish] using hk
          | some x =>
            have hup : s.phase = .up := hi.up (by rw [hk]; rfl)
            exact absurd (hup.symm.trans hlive) (by decide)
    cases h
    cases r with
    | ok =>
      exact { hi' with
        down := fun h => by cases h
        booting := fun h => absurd rfl h
        vouched := fun hl _ {k c} hk hs _ => hret.2 hl k c hk hs
        hand := fun {k res} hk => by
          have hk : (s.ledger.progress k).inHand = some res := hk
          rw [hhand k] at hk
          cases hk
        up := fun _ => rfl }
    | err e => exact hfail (.err e)
    | again b => exact hfail (.again b)
    | scanned x => exact hfail (.scanned x)
  · have he : s' = s.record (·.finish t op r) := by
      cases t with
      | boot => exact absurd rfl ht
      | _ => cases h; rfl
    rw [he]
    exact hi'

/-! ## Requests -/

theorem ReleaseCause.seen {t : Tid} {cr : Credential} (h : ReleaseCause s t cr) :
    ∃ m, s.Seen m ∧ m.all.Holds cr := by
  cases h with
  | undo _ _ hc => exact ⟨s.mem, s.seen_mem, Memory.holds_row hc⟩
  | delete _ _ hm _ hc _ => exact ⟨_, ⟨_, hm⟩, Memory.holds_row hc⟩
  | queued hm hc => exact ⟨_, hm, Memory.holds_queued hc⟩

theorem RenameGuard.seen {t : Tid} {d : Draft} (h : RenameGuard s t d) {cr : Credential}
    (hc : d.st.Holds cr) : ∃ m, s.Seen m ∧ m.all.Holds cr := by
  obtain ⟨m, committing, hm, he, -⟩ := h.snapshot
  rw [he, StateFile.holds_marshal] at hc
  exact ⟨m, ⟨_, hm⟩, Memory.holds_of_snapshot hc⟩

/-- **A tentative row goes into the file by its own commit only.** -/
theorem RenameGuard.tentative (hi : Inv cfg s) {t : Tid} {d : Draft} (h : RenameGuard s t d)
    {k : Key} {c : Claim} (ht : k ∈ s.mem.tentative) (hc : s.row k = some c)
    (hid : c.id ∈ d.st.ids) :
    t = .lifecycle k := by
  obtain ⟨m, committing, hm, he, hcom⟩ := h.snapshot
  obtain ⟨cr, hcr, hcr'⟩ := StateFile.mem_ids.mp hid
  rw [he, StateFile.holds_marshal] at hcr
  obtain ⟨honly, hqueue⟩ := hi.tentativeOnly ht hc ⟨_, hm⟩
  obtain ⟨k', c', hk', rfl⟩ | ⟨c', hc', rfl⟩ := hcr
  · obtain ⟨hk', hwhy⟩ := Memory.lookup_snapshot.mp hk'
    obtain ⟨rfl, htm⟩ := honly hk' hcr'
    exact (hcom k' (hwhy.resolve_left fun hn => hn htm)).1
  · exact absurd hcr' (hqueue c' hc')

theorem Inv.rename (hi : Inv cfg s) {t : Tid} {d : Draft} (hm : s.saveMu = some t)
    (hd : RenameGuard s t d) : Inv cfg ({ s with
      disk := { file := .table d.st, instant := some d.instant, writer := some d.writer } }.record
        fun l => { l with filed := l.filed ∪ d.st.ids }) := by
  have hissued : ∀ {cr}, d.st.Holds cr → cr ∈ s.ledger.issued := fun hc => by
    obtain ⟨m, hm, hh⟩ := hd.seen hc
    exact hi.issued hm hh
  have hids : ∀ {id}, id ∈ d.st.ids → id ∈ s.ledger.issuedIds := fun hid => by
    obtain ⟨cr, hcr, rfl⟩ := StateFile.mem_ids.mp hid
    exact Ledger.mem_issuedIds_of (hissued hcr)
  exact { hi with
    fileIssued := hissued
    filedIssued := Finset.union_subset hi.filedIssued fun _ => hids
    filed := Finset.subset_union_right
    hand := fun {k res} hk => by
      obtain ⟨hp, hcr, hs, hf, hu⟩ := hi.hand hk
      refine ⟨hp, hcr, hs, fun hid => ?_, hu⟩
      rcases Finset.mem_union.mp hid with hid | hid
      · exact hf hid
      · obtain ⟨cr, hcr, he⟩ := StateFile.mem_ids.mp hid
        obtain ⟨m, hm, hh⟩ := hd.seen hcr
        exact hu.2 hm hh he
    tentativeFiled := fun {k c} hk hc hid => by
      rcases Finset.mem_union.mp hid with hid | hid
      · exact hi.tentativeFiled hk hc hid
      · exact hm.trans (congrArg some (hd.tentative hi hk hc hid))
    diskInstant := fun {n} hn => by
      obtain ⟨m, committing, hm, -⟩ := hd.snapshot
      cases hn
      exact State.memAt_le hm }

/-- A fresh answer is nowhere yet. -/
theorem Inv.claim (hi : Inv cfg s) {t : Tid} {spec : ClaimSpec} {res : ClaimResult}
    (hp : s.phase = .up) (ht : t = .lifecycle spec.claimRef) (hc : (s.ledger.calls t).isSome)
    (h : answer t (.claim spec) (.ok res) s = some s') : Inv cfg s' := by
  simp only [answer] at h
  split at h
  · cases h
  · next hnew =>
    cases h
    have hsub : s.ledger.issuedIds ⊆ (insert ⟨res.id, res.token⟩ s.ledger.issued).image (·.id) :=
      Finset.image_subset_image (Finset.subset_insert _ _)
    have hfresh : s.Unseen res.id :=
      ⟨fun h => hnew (hi.loadedIssued h), fun hm hh he =>
        hnew (he ▸ Ledger.mem_issuedIds_of (hi.issued hm hh))⟩
    have hprog : ∀ {k res'}, (Function.update s.ledger.progress spec.claimRef
        { s.ledger.progress spec.claimRef with inHand := some res } k).inHand = some res' →
        k = spec.claimRef ∧ res' = res ∨
        k ≠ spec.claimRef ∧ (s.ledger.progress k).inHand = some res' := by
      intro k res' hk
      rw [Function.update_apply] at hk
      split at hk
      · next h => exact .inl ⟨h, (Option.some.inj hk).symm⟩
      · next h => exact .inr ⟨h, hk⟩
    have hother : ∀ {k res'}, (s.ledger.progress k).inHand = some res' → res'.id ≠ res.id :=
      fun hk he => hnew (he ▸ Ledger.mem_issuedIds_of (hi.hand hk).2.1)
    exact { hi with
      issued := fun hm hh => Finset.mem_insert_of_mem (hi.issued hm hh)
      fileIssued := fun hh => Finset.mem_insert_of_mem (hi.fileIssued hh)
      loadedIssued := hi.loadedIssued.trans hsub
      sentIssued := hi.sentIssued.trans hsub
      listingIssued := fun t => (hi.listingIssued t).trans hsub
      lackedIssued := hi.lackedIssued.trans hsub
      filedIssued := hi.filedIssued.trans hsub
      hand := fun {k res'} hk => by
        obtain ⟨-, rfl⟩ | ⟨-, hk⟩ := hprog hk
        · exact ⟨hp, Finset.mem_insert_self _ _, fun h => hnew (hi.sentIssued h),
            fun h => hnew (hi.filedIssued h), hfresh⟩
        · obtain ⟨hp, hcr, hrest⟩ := hi.hand hk
          exact ⟨hp, Finset.mem_insert_of_mem hcr, hrest⟩
      touched := fun k => by
        change (Function.update s.ledger.progress _ _ k).touched ≤ s.instant
        rw [Function.update_apply]
        split
        · exact hi.touched _
        · exact hi.touched k
      handInj := fun {k k' r r'} hk hk' he => by
        obtain ⟨h₁, rfl⟩ | ⟨-, h₁⟩ := hprog hk
        · obtain ⟨h₂, -⟩ | ⟨-, h₂⟩ := hprog hk'
          · exact h₁.trans h₂.symm
          · exact absurd he.symm (hother h₂)
        · obtain ⟨-, rfl⟩ | ⟨-, h₂⟩ := hprog hk'
          · exact absurd he (hother h₁)
          · exact hi.handInj h₁ h₂ he
      idle := fun {k} hk => by
        cases hr : (Function.update s.ledger.progress spec.claimRef
            { s.ledger.progress spec.claimRef with inHand := some res } k).inHand with
        | none => exact hr
        | some res' =>
          obtain ⟨rfl, -⟩ | ⟨-, h'⟩ := hprog hr
          · have hk : s.ledger.calls (.lifecycle spec.claimRef) = none := hk
            rw [ht, hk] at hc
            cases hc
          · have := hi.idle hk
            rw [h'] at this
            cases this }

theorem Inv.asked (hi : Inv cfg s) {t : Tid} {e : Request} {r : Reply e}
    (hg : Guard cfg (.asked t e r) s) (h : apply (.asked t e r) s = some s') : Inv cfg s' := by
  obtain ⟨hlive, hg⟩ := hg
  have h : answer t e r s = some s' := h
  cases e with
  | now =>
    obtain ⟨rfl, -⟩ := answer_now h
    exact hi
  | rangeOver keys =>
    simp only [answer] at h
    split at h
    · cases h; exact hi
    · cases h
  | sendClaim spec => cases h; exact hi
  | claim spec =>
    cases r with
    | error err => cases h; exact hi
    | ok res =>
      obtain ⟨ht, -, -, hc⟩ := hg
      exact hi.claim (by rw [ht] at hlive; exact hlive) ht hc h
  | sendRelease id token =>
    cases h
    obtain ⟨m, hm, hh⟩ := hg.1.seen
    have hid := Ledger.mem_issuedIds_of (hi.issued hm hh)
    exact { hi with
      sentIssued := Finset.insert_subset hid hi.sentIssued
      releasedSent := hi.releasedSent.trans (Finset.subset_insert _ _)
      hand := fun hk => by
        obtain ⟨hp, hcr, hs, hrest⟩ := hi.hand hk
        refine ⟨hp, hcr, fun hid => ?_, hrest⟩
        rcases Finset.mem_insert.mp hid with he | hid
        · exact hrest.2.2 hm hh he.symm
        · exact hs hid }
  | release id token =>
    cases r with
    | error err => cases h; exact hi
    | ok u =>
      cases h
      exact { hi with releasedSent := Finset.insert_subset hg hi.releasedSent }
  | sendList =>
    cases h
    exact { hi with
      listingIssued := fun u => by
        change Function.update s.ledger.listing t s.ledger.issuedIds u ⊆ _
        rw [Function.update_apply]
        split
        · exact Finset.Subset.refl _
        · exact hi.listingIssued u }
  | sandboxes =>
    cases r with
    | error err => cases h; exact { hi with }
    | ok listed =>
      cases h
      exact { hi with
        vouched := fun hl hp {k c} hk hs hid =>
          Finset.mem_union_left _ (hi.vouched hl hp hk hs hid)
        missed := Finset.union_subset_union hi.missed (Finset.Subset.refl _)
        lackedIssued := Finset.union_subset hi.lackedIssued
          ((Finset.filter_subset _ _).trans (hi.listingIssued t)) }
  | getOwner key gvr ns name => cases h; exact { hi with }
  | notify pod => cases h; exact { hi with }
  | lockSave =>
    simp only [answer] at h
    split at h
    · next hm =>
      cases h
      exact { hi with
        tentativeFiled := fun hk hc hid => by
          have := hi.tentativeFiled hk hc hid
          rw [hm] at this
          cases this
        lockOwner := fun {u} hu => by
          obtain rfl : t = u := Option.some.inj hu
          exact hg }
    · cases h
  | unlockSave =>
    simp only [answer] at h
    split at h
    · next hm =>
      cases h
      exact { hi with
        tentativeFiled := fun {k c} hk hc hid => by
          have he := hi.tentativeFiled hk hc hid
          rw [hm] at he
          exact absurd hid (hg k c (Option.some.inj he) hk hc)
        lockOwner := fun hu => by cases hu }
    · cases h
  | mkdirAll => cases r <;> cases h <;> exact { hi with }
  | writeFile st => cases r <;> cases h <;> exact { hi with }
  | rename =>
    cases r with
    | error err => cases h; exact { hi with }
    | ok u =>
      obtain ⟨d, hd, rfl⟩ := answer_rename h
      obtain ⟨hm, -, d', hd'⟩ := hg
      obtain rfl : d' = d := Option.some.inj (hd'.tmp.symm.trans hd)
      exact hi.rename hm hd'
  | readFile =>
    obtain ⟨rfl, hm⟩ := hg
    cases r with
    | failed err => cases h; exact hi
    | absent =>
      simp only [answer] at h
      split at h
      · cases h; exact hi
      · cases h
    | undecodable err =>
      simp only [answer] at h
      split at h
      · cases h; exact hi
      · cases h
    | decoded st =>
      simp only [answer] at h
      split at h
      · next hf =>
        cases h
        have hbooting : s.phase = .booting := hlive
        exact { hi with
          tentative := fun {k} hk => by
            have hk : k ∈ s.mem.tentative := hk
            rw [hm] at hk
            cases hk
          quarantined := fun {k} hk => by
            have hk : k ∈ s.mem.quarantined := hk
            rw [hm] at hk
            cases hk
          vouched := fun _ hp => by
            have hp : s.phase = .up := hp
            rw [hbooting] at hp
            cases hp
          loadedIssued := fun id hid => by
            obtain ⟨k, c, hk, rfl⟩ := StateFile.mem_rowIds.mp hid
            have hc : s.content.Holds c.cred := by
              rw [State.content, hf]
              exact .inl ⟨k, c, hk, rfl⟩
            exact Ledger.mem_issuedIds_of (hi.fileIssued hc)
          hand := fun hk => by
            have := (hi.hand hk).1
            rw [hbooting] at this
            cases this }
      · cases h

/-! ## Sections -/

section Locked

variable {t : Tid} {a : Section} {k : Key} {c c' : Claim}

/-- A load finds empty tables. -/
theorem SectionGuard.load_empty {st : StateFile} {now : Time}
    (hg : SectionGuard cfg s t (.load st now)) : s.mem = {} := hg.2.1

/-- The answer a recorded claim comes from. -/
theorem SectionGuard.inHand {pod : Pod} (hg : SectionGuard cfg s t (.insertClaim k pod c)) :
    ∃ res now, (s.ledger.progress k).inHand = some res ∧ c = Claim.ofResult res pod now := by
  obtain ⟨res, now, hres, hc, -⟩ := hg.2.2.2.2
  exact ⟨res, now, hres, hc⟩

theorem Inv.tentative_locked (hi : Inv cfg s) (hg : SectionGuard cfg s t a)
    (hk : k ∈ (a.run s.mem).tentative) :
    ∃ c', (a.run s.mem).claims.lookup k = some c' ∧ c'.id ∉ s.ledger.loaded := by
  obtain hk₀ | ⟨pod, c, rfl⟩ := Section.tentative_back hk
  · obtain ⟨c, hc, hid⟩ := hi.tentative hk₀
    have hns : ∀ {p : Prop}, s.mem.settled k → p := fun hs =>
      absurd hk₀ (Memory.settled_eq_true.mp hs).1
    obtain ⟨c', hc', hsame⟩ | hend := hg.forward hc
    · exact ⟨c', hc', hsame.id ▸ hid⟩
    · cases hend with
      | unlisted _ _ hl _ => exact absurd hl hid
      | dropped _ _ hs _ => exact hns hs
      | superseded _ _ hs _ => exact hns hs
      | withdrawn ha _ _ =>
        subst ha
        exact absurd hk (Finset.notMem_erase k _)
      | rechecked _ _ _ hs => exact hns hs
  · obtain ⟨res, now, hr, rfl⟩ := hg.inHand
    exact ⟨_, Finmap.lookup_insert _, (hi.hand hr).2.2.2.2.1⟩

theorem Inv.quarantined_locked (hi : Inv cfg s) (hg : SectionGuard cfg s t a)
    (hk : k ∈ (a.run s.mem).quarantined) :
    ∃ c', (a.run s.mem).claims.lookup k = some c' ∧ c'.id ∈ s.ledger.loaded := by
  obtain ⟨rfl, hk₀⟩ | ⟨hk₀, hset, hwd⟩ := Section.quarantined_back hk
  · obtain ⟨c, hc⟩ := Finmap.mem_iff.mp hk₀
    exact ⟨c, hc, hg.2.2.2 k c hc⟩
  · obtain ⟨c, hc, hid⟩ := hi.quarantined hk₀
    have hns : ∀ {p : Prop}, s.mem.settled k → p := fun hs =>
      absurd hk₀ (Memory.settled_eq_true.mp hs).2
    obtain ⟨c', hc', hsame⟩ | hend := hg.forward hc
    · exact ⟨c', hc', hsame.id ▸ hid⟩
    · cases hend with
      | unlisted ha hb _ _ =>
        have hj := hset _ _ ha
        rw [Memory.judged, show s.mem.claims.lookup k = some c from hc] at hj
        simp [hb] at hj
      | dropped _ _ hs _ => exact hns hs
      | superseded _ _ hs _ => exact hns hs
      | withdrawn ha _ _ => exact absurd ha (hwd _)
      | rechecked _ _ _ hs => exact hns hs

/-- A loaded row becomes settled by a listing that has it. -/
theorem Inv.vouched_locked (hi : Inv cfg s) (hg : SectionGuard cfg s t a) (hs : ¬ a.Startup)
    (hl : cfg.lister) (hp : s.phase = .up) (hk : (a.run s.mem).claims.lookup k = some c')
    (hset : (a.run s.mem).settled k) (hid : c'.id ∈ s.ledger.loaded) :
    c'.id ∈ s.ledger.vouched := by
  obtain ⟨c, hc, hsame, -⟩ | ⟨pod, rfl⟩ := hg.row_back hs hk
  · rw [hsame.id] at hid ⊢
    have ht : k ∉ s.mem.tentative := fun ht => by
      obtain ⟨c₁, h₁, hn⟩ := hi.tentative ht
      obtain rfl : c₁ = c := Option.some.inj (h₁.symm.trans hc)
      exact hn hid
    by_cases hq : k ∈ s.mem.quarantined
    · obtain hq' | ⟨before, live, rfl, hj⟩ | ⟨id, rfl⟩ := Section.quarantined_forward (a := a) hq
      · exact absurd hq' (Memory.settled_eq_true.mp hset).2
      · -- the listing judged the row and kept it
        have hc₀ : s.mem.claims.lookup k = some c := hc
        have hb : before.lookup k = some c.id := by
          rw [Memory.judged, hc₀] at hj
          simpa using hj
        obtain ⟨c₁, h₁, ⟨-, hrow⟩ | ⟨hn, -⟩⟩ := Memory.row_settle.mp hk
        · obtain rfl : c₁ = c := Option.some.inj (h₁.symm.trans hc₀)
          exact (hg.2 k c₁.id hb).2.2 (Memory.settleRow_eq_some hrow).1
        · obtain rfl : c₁ = c := Option.some.inj (h₁.symm.trans hc₀)
          exact absurd hb hn
      · obtain ⟨hk', hne⟩ := Memory.row_withdrawClaim.mp hk
        exact absurd (hg.2.2.1 c' hk') (hne rfl)
    · exact hi.vouched hl hp hc (Memory.settled_eq_true.mpr ⟨ht, hq⟩) hid
  · obtain ⟨res, now, hr, rfl⟩ := hg.inHand
    exact absurd hid (hi.hand hr).2.2.2.2.1

theorem Inv.podKey_locked (hi : Inv cfg s) (hg : SectionGuard cfg s t a) {p : Pod}
    (hk : (a.run s.mem).pods.lookup k = some p) : p.key = k := by
  obtain hk | rfl | rfl | ⟨pod, c, rfl, rfl⟩ := Section.pods_back hk
  · exact hi.podKey hk
  · exact hg.2.1
  · exact hg.2.1
  · exact hg.2.1

theorem Inv.issued_locked (hi : Inv cfg s) (hg : SectionGuard cfg s t a) {cr : Credential}
    (h : (a.run s.mem).all.Holds cr) : cr ∈ s.ledger.issued := by
  obtain h | ⟨k, pod, c, rfl, rfl⟩ | ⟨st, now, rfl, hst⟩ := hg.holds_back h
  · exact hi.issued s.seen_mem h
  · obtain ⟨res, now, hr, rfl⟩ := hg.inHand
    exact (hi.hand hr).2.1
  · refine hi.fileIssued ?_
    rw [State.content, hg.2.2.1]
    exact hst

/-- What a hand holds stays out of the tables, unless this section records it. -/
theorem Inv.unseen_locked (hi : Inv cfg s) (hlive : s.Live t) (hg : SectionGuard cfg s t a)
    {res : ClaimResult} (hr : (s.ledger.progress k).inHand = some res)
    (hne : ∀ pod c, a ≠ .insertClaim k pod c) {cr : Credential}
    (h : (a.run s.mem).all.Holds cr) : cr.id ≠ res.id := by
  obtain ⟨hp, -, -, -, hu⟩ := hi.hand hr
  obtain h | ⟨k', pod, c, rfl, rfl⟩ | ⟨st, now, rfl, h⟩ := hg.holds_back h
  · exact hu.2 s.seen_mem h
  · obtain ⟨res', now, hr', rfl⟩ := hg.inHand
    intro he
    obtain rfl := hi.handInj hr' hr he
    exact hne _ _ rfl
  · rw [hg.1] at hlive
    exact absurd (hp.symm.trans hlive) (by decide)

theorem Inv.tentativeOnly_locked (hi : Inv cfg s) (hg : SectionGuard cfg s t a) {m : Memory}
    (hk : k ∈ (a.run s.mem).tentative) (hc : (a.run s.mem).claims.lookup k = some c')
    (hm : s.Seen m ∨ m = a.run s.mem) :
    (∀ {k₁ c₁}, m.claims.lookup k₁ = some c₁ → c₁.id = c'.id → k₁ = k ∧ k ∈ m.tentative) ∧
    ∀ c₁ ∈ m.releasing, c₁.id ≠ c'.id := by
  have hns : ¬ a.Startup := by
    intro hs
    cases a with
    | load st now =>
      rw [show (Section.run (.load st now) s.mem).tentative = s.mem.tentative from rfl,
        hg.load_empty] at hk
      cases hk
    | quarantineLoadedClaims =>
      rw [show (Section.run .quarantineLoadedClaims s.mem).tentative = s.mem.tentative from rfl,
        hg.2.2.1] at hk
      cases hk
    | _ => exact hs
  obtain ⟨c, hc₀, hsame, ht, -⟩ | ⟨pod, rfl⟩ := hg.row_back hns hc
  · have hk₀ := ht hk
    rw [hsame.id]
    rcases hm with hm | rfl
    · exact hi.tentativeOnly hk₀ hc₀ hm
    · obtain ⟨honly, hqueue⟩ := hi.tentativeOnly hk₀ hc₀ s.seen_mem
      refine ⟨fun {k₁ c₁} h₁ he => ?_, fun c₁ h₁ he => ?_⟩
      · obtain ⟨c₂, h₂, hsame', -⟩ | ⟨pod, rfl⟩ := hg.row_back hns h₁
        · exact ⟨(honly h₂ (hsame'.id ▸ he)).1, hk⟩
        · obtain ⟨res, now, hr, rfl⟩ := hg.inHand
          exact absurd he.symm ((hi.hand hr).2.2.2.2.2 s.seen_mem (Memory.holds_row hc₀))
      · obtain h₁ | ⟨st, now, rfl, -⟩ | ⟨key, pod, -, h₁, hs, -⟩ | ⟨key, rfl, hw⟩ :=
          Section.releasing_back h₁
        · exact hqueue c₁ h₁ he
        · exact hns trivial
        · obtain ⟨rfl, htm⟩ := honly h₁ he
          exact (Memory.settled_eq_true.mp hs).1 htm
        · obtain ⟨cur, hcur, hid, -⟩ := Memory.withdrawable_iff.mp hw
          obtain ⟨rfl, htm⟩ := honly hcur (hid.trans he)
          exact (Memory.settled_eq_true.mp (hg.2.2.2 cur hcur hid).2).1 htm
  · obtain ⟨res, now, hr, rfl⟩ := hg.inHand
    have hu : s.Unseen res.id := (hi.hand hr).2.2.2.2
    rcases hm with hm | rfl
    · exact ⟨fun h₁ he => absurd he (hu.2 hm (Memory.holds_row h₁)),
        fun c₁ h₁ => hu.2 hm (Memory.holds_queued h₁)⟩
    · refine ⟨fun {k₁ c₁} h₁ he => ⟨?_, hk⟩,
        fun c₁ h₁ => hu.2 s.seen_mem (Memory.holds_queued h₁)⟩
      obtain ⟨rfl, -⟩ | ⟨-, h₁⟩ := Memory.row_insertClaim.mp h₁
      · rfl
      · exact absurd he (hu.2 s.seen_mem (Memory.holds_row h₁))

theorem Inv.tentativeFiled_locked (hi : Inv cfg s) (hg : SectionGuard cfg s t a)
    (hk : k ∈ (a.run s.mem).tentative) (hc : (a.run s.mem).claims.lookup k = some c')
    (hf : c'.id ∈ s.ledger.filed) : s.saveMu = some (.lifecycle k) := by
  obtain hk₀ | ⟨pod, c, rfl⟩ := Section.tentative_back hk
  · obtain ⟨c, hc₀, -⟩ := hi.tentative hk₀
    obtain ⟨c₁, h₁, hsame⟩ | hcr := Section.row_back hc
    · obtain rfl : c₁ = c := Option.some.inj (h₁.symm.trans hc₀)
      exact hi.tentativeFiled hk₀ hc₀ (hsame.id ▸ hf)
    · cases a with
      | load st now => rw [hg.load_empty] at hk₀; cases hk₀
      | insertClaim key pod c₂ =>
        obtain ⟨rfl, -⟩ := hcr
        have hn : s.row k = none := hg.2.2.2.1
        rw [hc₀] at hn
        cases hn
      | _ => exact hcr.elim
  · obtain ⟨res, now, hr, rfl⟩ := hg.inHand
    rw [Section.run, Memory.insertClaim, Finmap.lookup_insert, Option.some.injEq] at hc
    subst hc
    exact absurd hf (hi.hand hr).2.2.2.1

theorem Inv.locked (hi : Inv cfg s) (hg : Guard cfg (.locked t a) s)
    (h : apply (.locked t a) s = some s') : Inv cfg s' := by
  obtain ⟨hlive, hg⟩ := hg
  cases h
  have hseen : ∀ {m : Memory}, (s.entered a).Seen m →
      s.Seen m ∨ m = a.run s.mem := fun h => State.seen_setMem.mp h
  have hhand : ∀ {k res}, (s.ledger.progressAfter a s k).inHand = some res →
      (s.ledger.progress k).inHand = some res ∧ ∀ pod c, a ≠ .insertClaim k pod c := by
    intro k res hk
    obtain he | ⟨he, -⟩ := Ledger.inHand_progressAfter (a := a) (s := s) (l := s.ledger) (k := k)
    · refine ⟨he ▸ hk, ?_⟩
      rintro pod c rfl
      simp [Ledger.progressAfter] at hk
    · rw [he] at hk
      cases hk
  exact { hi with
    down := fun hp => by
      have hp : s.phase = .down := hp
      cases t <;> exact absurd (hp.symm.trans hlive) (by decide)
    booting := fun hp => by
      have hp : s.phase ≠ .up := hp
      refine Finset.eq_empty_of_forall_notMem fun k hk => ?_
      obtain hk | ⟨pod, c, rfl⟩ := Section.tentative_back hk
      · rw [hi.booting hp] at hk
        cases hk
      · rw [hg.1] at hlive
        exact hp hlive
    touched := fun k => by
      change (s.ledger.progressAfter a s k).touched ≤ s.instant + 1
      obtain he | he := Ledger.touched_progressAfter (a := a) (s := s) (l := s.ledger) (k := k)
      · exact he.trans_le ((hi.touched k).trans (Nat.le_succ _))
      · exact he.le
    born := hi.born.trans (Nat.le_succ _)
    tentative := hi.tentative_locked hg
    quarantined := hi.quarantined_locked hg
    lister := fun hk => by
      obtain ⟨rfl, -⟩ | ⟨hk, -⟩ := Section.quarantined_back hk
      · exact hg.2.1
      · exact hi.lister hk
    vouched := fun hl hp {k c} hk hs hid => by
      refine hi.vouched_locked hg (hg.not_startup ?_) hl hp hk hs hid
      rintro rfl
      exact absurd (hlive.symm.trans hp) (by decide)
    podKey := hi.podKey_locked hg
    issued := fun hm hh => by
      rcases hseen hm with hm | rfl
      · exact hi.issued hm hh
      · exact hi.issued_locked hg hh
    hand := fun {k res} hk => by
      obtain ⟨hk, hne⟩ := hhand hk
      obtain ⟨hp, hcr, hs, hf, hu⟩ := hi.hand hk
      refine ⟨hp, hcr, hs, hf, hu.1, fun hm hh => ?_⟩
      rcases hseen hm with hm | rfl
      · exact hu.2 hm hh
      · exact hi.unseen_locked hlive hg hk hne hh
    handInj := fun hk hk' => hi.handInj (hhand hk).1 (hhand hk').1
    tentativeOnly := fun hk hc hm => hi.tentativeOnly_locked hg hk hc (hseen hm)
    tentativeFiled := hi.tentativeFiled_locked hg
    diskInstant := fun hn => (hi.diskInstant hn).trans (Nat.le_succ _)
    idle := fun {k} hk => by
      cases hr : (s.ledger.progressAfter a s k).inHand with
      | none => exact hr
      | some res =>
        have := hi.idle (k := k) hk
        rw [(hhand hr).1] at this
        cases this }

end Locked

/-- **Every guarded event keeps the invariant.** -/
theorem Inv.keeps {ev : Ev} (hi : Inv cfg s) (hg : Guard cfg ev s) (h : apply ev s = some s') :
    Inv cfg s' := by
  cases ev with
  | started t op => exact hi.started h
  | read t => exact hi.read h
  | locked t a => exact hi.locked hg h
  | asked t e r => exact hi.asked hg h
  | finished t op r => exact hi.finished hg h
  | crashed => exact hi.crashed h

end VkSandbox
