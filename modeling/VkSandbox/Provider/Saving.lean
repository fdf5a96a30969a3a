import VkSandbox.Provider.Rules

/-!
# Provider/Saving — the state write

`write`, `persist` and `commitClaim`.  While a thread holds the save lock nobody else touches the
disk and nothing becomes durable, so the snapshot it took still covers every durable credential when
its rename lands; a commit clears the marker of its row only after that.
-/

namespace VkSandbox

open Interleave Interleave.Prog

variable {cfg : Config} {t : Tid} {s s₁ s₂ s₃ s' : State} {k : Key} {c : Claim}
  {committing : Option Key}

/-! ## Holding the save lock -/

/-- A stretch of `t`'s code that releases no sandbox either. -/
structure Silent (t : Tid) (s s' : State) : Prop extends Quiet t s s' where
  unsent : ∀ k, t = .lifecycle k → Unsent k s s'

namespace Silent

theorem trans (h : Silent t s₁ s₂) (h' : Silent t s₂ s₃) : Silent t s₁ s₃ where
  toQuiet := h.toQuiet.trans h'.toQuiet
  unsent := fun k hk c ht hc hu => h'.unsent k hk c ((h.own k hk).tentative.mpr ht)
    (((h.own k hk).fixed ht).trans hc) (h.unsent k hk c ht hc hu)

theorem looked (t : Tid) (s : State) : Silent t s (s.looked t) where
  toQuiet := .looked t s
  unsent := fun _ _ _ _ _ => id

theorem asked {e : Request} {r : Reply e} (h : answer t e r s = some s')
    (hg : AskGuard cfg s t e r) (hr : e ≠ .readFile) (hc : ∀ spec, e ≠ .claim spec)
    (hm : e ≠ .lockSave) (hs : ∀ id token, e ≠ .sendRelease id token) : Silent t s s' where
  toQuiet := .asked h hg hr hc hm
  unsent := fun k _ c _ _ hn => by rw [(answered h).sent hs]; exact hn

end Silent

theorem Calm.silent (h : Calm t s s') : Silent t s s' where
  toQuiet := h.quiet
  unsent := h.unsent

/-- The save lock is `t`'s and the disk has not changed since `s`. -/
structure Held (t : Tid) (s s' : State) : Prop where
  saveMu : s'.saveMu = some t
  file : s'.disk.file = s.disk.file
  instant : s'.disk.instant = s.disk.instant
  filed : s'.ledger.filed = s.ledger.filed
  since : s'.ledger.savingSince = s.ledger.savingSince
  durable : Settling s.mem s'.mem

namespace Held

theorem refl (hm : s.saveMu = some t) : Held t s s := ⟨hm, rfl, rfl, rfl, rfl, .refl s.mem⟩

theorem calm (h : Held t s s₁) (hc : Calm t s₁ s₂) : Held t s s₂ := by
  obtain ⟨hm, hd, hf, hs, hdur⟩ := hc.mine.held h.saveMu
  exact ⟨hm, hd ▸ h.file, hd ▸ h.instant, hf.trans h.filed, hs.trans h.since,
    h.durable.trans hdur⟩

theorem looked (h : Held t s s₁) (u : Tid) : Held t s (s₁.looked u) := { h with }

end Held

/-! ## `write` -/

theorem Memory.snapshot_mono {m : Memory} {cr : Credential} (h : (m.snapshot none).Holds cr) :
    (m.snapshot committing).Holds cr := by
  refine h.mono (fun k c hk he => ?_) (fun c hc he => .inr ⟨c, hc, he⟩)
  obtain ⟨hk, ht | h⟩ := lookup_snapshot.mp hk
  · exact .inl ⟨k, c, lookup_snapshot.mpr ⟨hk, .inl ht⟩, he⟩
  · cases h

/-- What a `write` leaves behind: on success a snapshot taken meanwhile, on failure the old file. -/
structure Written (cfg : Config) (t : Tid) (committing : Option Key) (s : State)
    (r : Except ProviderError Unit) (s' : State) : Prop where
  silent : Silent t s s'
  saveMu : s'.saveMu = some t
  ok : r = .ok () → cfg.statePath → ∃ s₁, Calm t s s₁ ∧ Inv cfg s₁ ∧
    s'.disk.file = .table (s₁.mem.snapshot committing).marshal ∧
    s'.disk.instant = some s₁.instant ∧
    s'.ledger.filed = s.ledger.filed ∪ (s₁.mem.snapshot committing).marshal.ids
  kept : (∀ u, r = .ok u → cfg.statePath = false) → s'.disk.file = s.disk.file ∧
    s'.ledger.filed = s.ledger.filed
  failed : ∀ err, r = .error err → s'.ledger.writeFailed = true
  still : t = .boot → Still s s'

theorem Written.of_kept {r : Except ProviderError Unit} (hs : Silent t s s') (hh : Held t s s')
    (hr : ∀ u, r = .ok u → cfg.statePath = false)
    (hf : ∀ err, r = .error err → s'.ledger.writeFailed = true)
    (hst : t = .boot → Still s s') :
    Written cfg t committing s r s' where
  silent := hs
  saveMu := hh.saveMu
  ok := fun he hp => by rw [hr _ he] at hp; cases hp
  kept := fun _ => ⟨hh.file, hh.filed⟩
  failed := hf
  still := hst

/-- A step of the write so far: silent, the lock held, and still for `New`. -/
structure Midway (t : Tid) (s s' : State) : Prop where
  silent : Silent t s s'
  held : Held t s s'
  still : t = .boot → Still s s'

namespace Midway

theorem calm (h : Midway t s s₁) (hc : Calm t s₁ s₂) : Midway t s s₂ where
  silent := h.silent.trans hc.silent
  held := h.held.calm hc
  still := fun hb => by subst hb; exact (h.still rfl).trans (.calm hc)

theorem live (h : Midway t s s₁) (hl : s.Live t) : s₁.Live t := h.silent.live hl

theorem kept (h : Midway t s s₁) (hc : Calm t s₁ s₂) {r : Except ProviderError Unit}
    (hr : ∀ u, r = .ok u → cfg.statePath = false)
    (hf : ∀ err, r = .error err → s₁.ledger.writeFailed = true) :
    Written cfg t committing s r s₂ := by
  have h' := h.calm hc
  refine .of_kept h'.silent h'.held hr (fun err he => ?_) h'.still
  cases hw : s₂.ledger.writeFailed with
  | true => rfl
  | false =>
    have := hc.evolves.writeFailed hw
    rw [hf err he] at this
    cases this

end Midway

/-- The snapshot a thread holds the save lock for covers what is durable when it renames. -/
theorem Midway.renameGuard (hi₁ : Inv cfg s₁) (h₁ : Calm t s s₁) (h : Midway t s s')
    (hm : s.saveMu = some t) (he : Evolves s₁ s') (hsince : s.ledger.savingSince ≤ s.instant)
    (hdur : Settling s₁.mem s'.mem)
    (htmp : s'.disk.tmp = some ⟨(s₁.mem.snapshot committing).marshal, s₁.instant, t⟩)
    (hcom : ∀ k, committing = some k → t = .lifecycle k ∧ ∃ c, k ∈ s.mem.tentative ∧
      s.row k = some c ∧ c.id ∉ s.ledger.sent) :
    RenameGuard s' t ⟨(s₁.mem.snapshot committing).marshal, s₁.instant, t⟩ where
  tmp := htmp
  writer := rfl
  since := by
    rw [h.held.since]
    exact hsince.trans h₁.evolves.instant
  later := fun n hn => by
    rw [h.held.instant] at hn
    refine hi₁.diskInstant ?_
    rw [((Held.refl hm).calm h₁).instant]
    exact hn
  covers := fun cr hcr => StateFile.holds_marshal.mpr (Memory.snapshot_mono (hdur.holds hcr))
  keys := fun {k c} hc ht => by
    obtain ⟨c₁, h₁, ht₁⟩ := hdur.keys hc ht
    refine ⟨c₁.marshal, ?_⟩
    simp only [StateFile.marshal, Table.lookup_pick, Option.bind_eq_some_iff]
    exact ⟨c₁, Memory.lookup_snapshot.mpr ⟨h₁, .inl ht₁⟩, rfl⟩
  snapshot := by
    refine ⟨s₁.mem, committing, he.memAt s₁.memAt_instant, rfl, fun k hk => ?_⟩
    obtain ⟨ht, c, htent, hc, hn⟩ := hcom k hk
    refine ⟨ht, fun c' hc' => ?_⟩
    have hfix := (h₁.own k ht).fixed htent
    obtain rfl : c = c' := Option.some.inj (hc.symm.trans (hfix.symm.trans hc'))
    exact h.silent.unsent k ht c htent hc hn

theorem wp_write (hl : s.Live t) (hm : s.saveMu = some t)
    (hsince : s.ledger.savingSince ≤ s.instant) (hrec : t = .boot → cfg.statePath → s.Recovered)
    (hcom : ∀ k, committing = some k → t = .lifecycle k ∧ ∃ c, k ∈ s.mem.tentative ∧
      s.row k = some c ∧ c.id ∉ s.ledger.sent) :
    Wp cfg t (write cfg committing) (Written cfg t committing s) s := by
  have w₀ : Midway t s s :=
    ⟨⟨.refl t s, fun _ _ _ _ _ => id⟩, .refl hm, fun _ => .refl s⟩
  unfold write
  split
  · next hp =>
    refine Wp.ret hl fun s₁ h₁ _ => w₀.kept h₁ (fun _ _ => by simpa using hp) (fun _ h => ?_)
    cases h
  · next hp =>
    refine Wp.look hl fun s₁ h₁ hi₁ => ?_
    -- from here on the snapshot is the tables of `s₁`
    have w₁ : Midway t s (s₁.looked t) :=
      have w := w₀.calm h₁
      ⟨w.silent.trans (.looked t s₁), w.held.looked t,
        fun hb => (w.still hb).trans ⟨rfl, rfl, rfl, rfl, fun _ => rfl⟩⟩
    have hat₁ : (s₁.looked t).ledger.readAt t = s₁.instant := Function.update_self _ _ _
    have d₁ : Held t s₁ (s₁.looked t) := (Held.refl (w₀.calm h₁).held.saveMu).looked t
    refine Wp.request (w₁.live hl) fun s₂ h₂ hi₂ r s₃ hs₃ => ?_
    have w₂ := w₁.calm h₂
    have hg₂ : AskGuard cfg s₂ t .mkdirAll r := w₂.held.saveMu
    have q₃ : Silent t s₂ s₃ := .asked hs₃ hg₂ nofun nofun nofun nofun
    have t₃ : Still s₂ s₃ := .asked hs₃ nofun nofun nofun
    refine ⟨hg₂, ?_⟩
    cases r with
    | error err =>
      cases hs₃
      have w₃ : Midway t s (s₂.record fun l => { l with writeFailed := true }) :=
        ⟨w₂.silent.trans q₃, { w₂.held with }, fun hb => (w₂.still hb).trans t₃⟩
      exact Wp.ret (w₃.live hl) fun s₄ h₄ _ => w₃.kept h₄ (fun _ h => by cases h) (fun _ _ => rfl)
    | ok _ =>
      cases hs₃
      refine Wp.request (w₂.live hl) fun s₄ h₄ hi₄ r s₅ hs₅ => ?_
      have w₄ := w₂.calm h₄
      have hg₄ : AskGuard cfg s₄ t (.writeFile (s₁.mem.snapshot committing)) r := w₄.held.saveMu
      have q₅ : Silent t s₄ s₅ := .asked hs₅ hg₄ nofun nofun nofun nofun
      have t₅ : Still s₄ s₅ := .asked hs₅ nofun nofun nofun
      refine ⟨hg₄, ?_⟩
      cases r with
      | error err =>
        cases hs₅
        have w₅ := Midway.mk (w₄.silent.trans q₅) ⟨w₄.held.saveMu, w₄.held.file, w₄.held.instant,
          w₄.held.filed, w₄.held.since, w₄.held.durable⟩ fun hb => (w₄.still hb).trans t₅
        exact Wp.ret (w₅.live hl) fun s₆ h₆ _ =>
          w₅.kept h₆ (fun _ h => by cases h) (fun _ _ => rfl)
      | ok _ =>
        have hat₄ : s₄.ledger.readAt t = s₁.instant := by
          rw [h₄.mine.readAt, h₂.mine.readAt, hat₁]
        have w₅ : Midway t s s₅ := by
          cases hs₅
          exact ⟨w₄.silent.trans q₅, { w₄.held with }, fun hb => (w₄.still hb).trans t₅⟩
        have d₅ : Held t s₁ s₅ := by
          have d := (d₁.calm h₂).calm h₄
          cases hs₅
          exact { d with }
        have htmp : s₅.disk.tmp = some ⟨(s₁.mem.snapshot committing).marshal, s₁.instant, t⟩ := by
          cases hs₅
          rw [← hat₄]
        refine Wp.request (w₅.live hl) fun s₆ h₆ hi₆ r s₇ hs₇ => ?_
        have w₆ := w₅.calm h₆
        have he : Evolves s₁ s₆ :=
          ((((Silent.looked t s₁).trans h₂.silent).trans h₄.silent).trans
            (q₅.trans h₆.silent)).evolves
        have htmp₆ : s₆.disk.tmp = some ⟨(s₁.mem.snapshot committing).marshal, s₁.instant, t⟩ := by
          rw [(h₆.mine.held w₅.held.saveMu).2.1, htmp]
        have hren := w₆.renameGuard hi₁ h₁ hm he hsince (d₅.calm h₆).durable htmp₆ hcom
        have hrec₆ : t = .boot → s₆.Recovered := fun hb =>
          (hrec hb (by simpa using hp)).congr w₆.held.file (by rw [(w₆.still hb).missed])
            (w₆.still hb).mem
        have hg₆ : AskGuard cfg s₆ t .rename r := ⟨w₆.held.saveMu, hrec₆, _, hren⟩
        have q₇ : Silent t s₆ s₇ := .asked hs₇ hg₆ nofun nofun nofun nofun
        have t₇ : Still s₆ s₇ := .asked hs₇ nofun nofun nofun
        refine ⟨hg₆, ?_⟩
        cases r with
        | error err =>
          cases hs₇
          have w₇ := Midway.mk (w₆.silent.trans q₇) ⟨w₆.held.saveMu, w₆.held.file, w₆.held.instant,
            w₆.held.filed, w₆.held.since, w₆.held.durable⟩ fun hb => (w₆.still hb).trans t₇
          exact Wp.ret (w₇.live hl) fun s₈ h₈ _ =>
            w₇.kept h₈ (fun _ h => by cases h) (fun _ _ => rfl)
        | ok _ =>
          obtain ⟨d, hd, hs₇⟩ := answer_rename hs₇
          obtain rfl := Option.some.inj (hd.symm.trans htmp₆)
          have hm₇ : s₇.saveMu = some t := by rw [hs₇]; exact w₆.held.saveMu
          refine Wp.ret ((w₆.silent.trans q₇).live hl) fun s₈ h₈ _ => ?_
          obtain ⟨hm₈, hd₈, hf₈, -, -⟩ := h₈.mine.held hm₇
          exact {
            silent := (w₆.silent.trans q₇).trans h₈.silent
            saveMu := hm₈
            ok := fun _ _ => ⟨s₁, h₁, hi₁, by rw [hd₈, hs₇]; rfl, by rw [hd₈, hs₇]; rfl, by
              rw [hf₈, hs₇, ← w₆.held.filed]; rfl⟩
            kept := fun h => by simp_all
            failed := fun _ h => by cases h
            still := fun hb => by
              subst hb
              exact ((w₆.still rfl).trans t₇).trans (.calm h₈) }

/-- What has just been written is recovered. -/
theorem State.Recovered.of_snapshot (h : s.disk.file = .table (s.mem.snapshot none).marshal) :
    s.Recovered where
  rows := fun {k c} hc => by
    rw [State.content, h] at hc
    simp only [File.content, StateFile.marshal, Table.lookup_pick, Option.bind_eq_some_iff,
      Option.some.injEq] at hc
    obtain ⟨c', hc', rfl⟩ := hc
    exact .inr ⟨c', (Memory.lookup_snapshot.mp hc').1, rfl⟩
  queue := by
    rw [State.content, h]
    simp [File.content, StateFile.marshal, Memory.snapshot, Function.comp_def]

/-! ## `persist` -/

/-- A tentative row is in no snapshot but its own commit's. -/
theorem Inv.not_in_snapshot (hi : Inv cfg s) (hk : k ∈ s.mem.tentative) (hc : s.row k = some c) :
    c.id ∉ (s.mem.snapshot none).marshal.ids := by
  intro hid
  obtain ⟨cr, hcr, he⟩ := StateFile.mem_ids.mp hid
  obtain ⟨honly, hqueue⟩ := hi.tentativeOnly hk hc s.seen_mem
  rw [StateFile.holds_marshal] at hcr
  obtain ⟨k', c', hk', ht, rfl⟩ | ⟨c', hc', rfl⟩ := Memory.holds_durable.mp hcr
  · obtain ⟨rfl, -⟩ := honly hk' he
    exact ht hk
  · exact hqueue c' hc' he

/-- Taking the save lock, and what is silent from there until it is free again. -/
theorem Silent.lock (h : answer t .lockSave () s = some s₁) (h' : Silent t s₁ s₂)
    (hf : s₂.saveMu ≠ some t) : Silent t s s₂ := by
  have ha := answered h
  have he : Evolves s s₁ := by
    simp only [answer] at h
    split at h
    · cases h; exact { Evolves.refl s with }
    · cases h
  have ho : ∀ k, Own k s s₁ := fun k => .asked (fun _ he => by cases he) h
  exact {
    evolves := he.trans h'.evolves
    calls := h'.calls.trans (by rw [ha.calls])
    free := fun _ => hf
    own := fun k hk => (ho k).trans (h'.own k hk) h'.evolves
    unsent := fun k hk c ht hc hn => h'.unsent k hk c ((ho k).tentative.mpr ht)
      (((ho k).fixed ht).trans hc) (by rw [ha.sent fun _ _ he => by cases he]; exact hn) }

/-- What taking the save lock finds and leaves. -/
theorem answer_lockSave (h : answer t .lockSave () s = some s₁) : s.saveMu = none ∧
    s₁ = { s with saveMu := some t }.record fun l => { l with savingSince := s.instant } := by
  simp only [answer] at h
  split at h
  · next hm => cases h; exact ⟨hm, rfl⟩
  · cases h

/-- Before a commit lands, a tentative row has never been in the file. -/
theorem Inv.not_filed (hi : Inv cfg s) (hm : s.saveMu ≠ some (.lifecycle k))
    (hk : k ∈ s.mem.tentative) (hc : s.row k = some c) : c.id ∉ s.ledger.filed :=
  fun h => hm (hi.tentativeFiled hk hc h)

/-- Giving the save lock back. -/
theorem answer_unlockSave (h : answer t .unlockSave () s = some s₁) :
    s₁ = { s with saveMu := none } := by
  simp only [answer] at h
  split at h
  · cases h; rfl
  · cases h

/-- What `persist` leaves behind. -/
structure Saved (cfg : Config) (t : Tid) (s : State) (r : Except ProviderError Unit) (s' : State) :
    Prop where
  silent : Silent t s s'
  free : s'.saveMu ≠ some t
  ok : r = .ok () → cfg.statePath → ∃ n, s'.disk.instant = some n ∧ s.instant ≤ n
  failed : ∀ err, r = .error err → s'.ledger.writeFailed = true
  still : t = .boot → Still s s' ∧
    (r = .ok () → cfg.statePath → s'.disk.file ≠ .garbage ∧ s'.Recovered)

/-- What the thread knows when it gives the lock back after a write that is not a commit of `k`. -/
theorem Written.unfiled {r : Except ProviderError Unit} (h : Written cfg t committing s r s')
    (hc : committing = none ∨ ∀ u, r ≠ .ok u) (ht : t = .lifecycle k)
    (hn : ∀ c, k ∈ s.mem.tentative → s.row k = some c → c.id ∉ s.ledger.filed)
    (hk : k ∈ s'.mem.tentative) (hrow : s'.row k = some c) : c.id ∉ s'.ledger.filed := by
  have ho := h.silent.own k ht
  have hk₀ := ho.tentative.mp hk
  have hrow₀ : s.row k = some c := (ho.fixed hk₀).symm.trans hrow
  by_cases hok : r = .ok () ∧ cfg.statePath
  · obtain rfl := hc.resolve_right fun hne => hne () hok.1
    obtain ⟨s₁, h₁, hi₁, -, -, hf⟩ := h.ok hok.1 hok.2
    have ho₁ := h₁.own k ht
    rw [hf, Finset.mem_union, not_or]
    exact ⟨hn c hk₀ hrow₀, hi₁.not_in_snapshot (ho₁.tentative.mpr hk₀)
      ((ho₁.fixed hk₀).trans hrow₀)⟩
  · rw [(h.kept fun u hu => by simp_all).2]
    exact hn c hk₀ hrow₀

theorem wp_persist (hl : s.Live t) (hcall : (s.ledger.calls t).isSome)
    (hrec : t = .boot → cfg.statePath → s.Recovered) :
    Wp cfg t (persist cfg) (Saved cfg t s) s := by
  unfold persist
  refine Wp.request hl fun s₁ h₁ hi₁ _ s₂ hs₂ => ?_
  have hg₁ : AskGuard cfg s₁ t .lockSave () := by
    change (s₁.ledger.calls t).isSome
    rw [h₁.mine.calls]
    exact hcall
  obtain ⟨hfree, he₂⟩ := answer_lockSave hs₂
  have hm₂ : s₂.saveMu = some t := by rw [he₂]; rfl
  have hl₂ : s₂.Live t := by rw [he₂]; exact h₁.evolves.live hl
  have hst₂ : t = .boot → Still s s₂ := fun hb => by
    subst hb
    exact (Still.calm h₁).trans (.asked hs₂ nofun nofun nofun)
  have hrec₂ : t = .boot → cfg.statePath → s₂.Recovered := fun hb hp =>
    (hrec hb hp).congr (by rw [he₂, h₁.still hb]; rfl) (by rw [(hst₂ hb).missed]) (hst₂ hb).mem
  have hn₂ : ∀ k c, t = .lifecycle k → k ∈ s₂.mem.tentative → s₂.row k = some c →
      c.id ∉ s₂.ledger.filed := by
    intro k c _ hk hc
    rw [he₂] at hk hc ⊢
    exact hi₁.not_filed (by rw [hfree]; nofun) hk hc
  refine ⟨hg₁, Outline.wp_call (wp_write hl₂ hm₂ (by rw [he₂]; rfl) hrec₂ nofun) fun r s₃ w => ?_⟩
  refine Wp.request (w.silent.live hl₂) fun s₄ h₄ hi₄ _ s₅ hs₅ => ?_
  have hg₄ : AskGuard cfg s₄ t .unlockSave () := fun k c ht hk hc => by
    have ho := h₄.own k ht
    have hk₃ := ho.tentative.mp hk
    rw [(h₄.mine.held w.saveMu).2.2.1]
    exact w.unfiled (.inl rfl) ht (fun c => hn₂ k c ht) hk₃ ((ho.fixed hk₃).symm.trans hc)
  have q₅ := (w.silent.trans h₄.silent).trans (.asked hs₅ hg₄ nofun nofun nofun nofun)
  have he₅ := answer_unlockSave hs₅
  refine ⟨hg₄, Wp.ret (q₅.live hl₂) fun s₆ h₆ _ => ?_⟩
  have hf₆ : s₆.saveMu ≠ some t := h₆.mine.free (by rw [he₅]; nofun)
  exact {
    silent := h₁.silent.trans (.lock hs₂ (q₅.trans h₆.silent) hf₆)
    free := hf₆
    ok := fun hr hp => by
      obtain ⟨s', h', -, -, hin, -⟩ := w.ok hr hp
      have hin₅ : s₅.disk.instant = some s'.instant := by
        rw [he₅]
        change s₄.disk.instant = _
        rw [(h₄.mine.held w.saveMu).2.1, hin]
      obtain ⟨n, hn, hle⟩ := h₆.evolves.disk hin₅
      refine ⟨n, hn, h₁.evolves.instant.trans (le_trans ?_ (h'.evolves.instant.trans hle))⟩
      rw [he₂]
      exact le_rfl
    failed := fun err hr => by
      cases hw : s₆.ledger.writeFailed with
      | true => rfl
      | false =>
        have := ((h₄.silent.trans (.asked hs₅ hg₄ nofun nofun nofun nofun)).trans
          h₆.silent).evolves.writeFailed hw
        rw [w.failed err hr] at this
        cases this
    still := fun hb => by
      subst hb
      have hst := (hst₂ rfl).trans ((w.still rfl).trans ((Still.calm h₄).trans
        ((Still.asked hs₅ nofun nofun nofun).trans (.calm h₆))))
      refine ⟨hst, fun hr hp => ?_⟩
      obtain ⟨s', h', -, hfile, -⟩ := w.ok hr hp
      have hfile₆ : s₆.disk.file = .table (s'.mem.snapshot none).marshal := by
        rw [h₆.still rfl, he₅]
        change s₄.disk.file = _
        rw [h₄.still rfl, hfile]
      have hmem : s₆.mem = s'.mem := by
        rw [h'.still rfl, hst.mem, ← (hst₂ rfl).mem]
      exact ⟨by rw [hfile₆]; nofun, .of_snapshot (by rw [hfile₆, hmem])⟩ }

/-- `saveState` leaves what `persist` leaves; whether it failed shows in the ledger. -/
theorem wp_saveState (hl : s.Live t) (hcall : (s.ledger.calls t).isSome) (ht : t ≠ .boot) :
    Wp cfg t (saveState cfg) (fun _ s' => Silent t s s' ∧ s'.saveMu ≠ some t ∧
      (s'.ledger.writeFailed = false → cfg.statePath →
        ∃ n, s'.disk.instant = some n ∧ s.instant ≤ n)) s := by
  refine Outline.wp_call (wp_persist hl hcall fun hb => absurd hb ht) fun r s₁ h => ?_
  refine Wp.ret (h.silent.live hl) fun s₂ h₂ _ =>
    ⟨h.silent.trans h₂.silent, h₂.mine.free h.free, fun hw hp => ?_⟩
  cases r with
  | error err =>
    have := h₂.evolves.writeFailed hw
    rw [h.failed err rfl] at this
    cases this
  | ok _ =>
    obtain ⟨n, hn, hle⟩ := h.ok rfl hp
    obtain ⟨n', hn', hle'⟩ := h₂.evolves.disk hn
    exact ⟨n', hn', hle.trans hle'⟩

/-! ## `commitClaim` -/

/-- What `commitClaim` leaves behind on success: the row is settled and in the file. -/
structure Committed (cfg : Config) (k : Key) (c : Claim) (s s' : State) : Prop where
  evolves : Evolves s s'
  calls : s'.ledger.calls (.lifecycle k) = s.ledger.calls (.lifecycle k)
  free : s'.saveMu ≠ some (.lifecycle k)
  pods : s'.mem.pods.lookup k = s.mem.pods.lookup k
  progress : s'.ledger.progress k = s.ledger.progress k
  tentative : k ∉ s'.mem.tentative
  quarantined : k ∈ s'.mem.quarantined → k ∈ s.mem.quarantined
  row : (∃ d, s'.row k = some { c with deadline := d }) ∨ s'.row k = none ∧
    (c.id ∈ s'.ledger.missed ∧ c.id ∈ s'.ledger.loaded ∨ s.mem.pods.lookup k = none)
  saved : cfg.statePath → ∃ n, s'.disk.instant = some n ∧ s.instant ≤ n

theorem wp_commitClaim (hl : s.Live (.lifecycle k))
    (hcall : (s.ledger.calls (.lifecycle k)).isSome) (hk : k ∈ s.mem.tentative)
    (hc : s.row k = some c) (hn : c.id ∉ s.ledger.sent)
    (hdec : (s.ledger.progress k).declined = true) :
    Wp cfg (.lifecycle k) (commitClaim cfg k) (fun r s' =>
      match r with
      | .ok _ => Committed cfg k c s s'
      | .error _ => Quiet (.lifecycle k) s s' ∧ s'.saveMu ≠ some (.lifecycle k)) s := by
  unfold commitClaim
  refine Wp.request hl fun s₁ h₁ hi₁ _ s₂ hs₂ => ?_
  have hg₁ : AskGuard cfg s₁ (.lifecycle k) .lockSave () := by
    change (s₁.ledger.calls (.lifecycle k)).isSome
    rw [h₁.mine.calls]
    exact hcall
  obtain ⟨hfree, he₂⟩ := answer_lockSave hs₂
  have o₁ := h₁.own k rfl
  have hk₂ : k ∈ s₂.mem.tentative := by rw [he₂]; exact o₁.tentative.mpr hk
  have hc₂ : s₂.row k = some c := by rw [he₂]; exact (o₁.fixed hk).trans hc
  have hn₂ : c.id ∉ s₂.ledger.sent := by rw [he₂]; exact h₁.unsent k rfl c hk hc hn
  have hm₂ : s₂.saveMu = some (.lifecycle k) := by rw [he₂]; rfl
  have hl₂ : s₂.Live (.lifecycle k) := by rw [he₂]; exact h₁.evolves.live hl
  have e₂ : Evolves s s₂ := h₁.evolves.trans (.asked hg₁ nofun hs₂)
  have hcom : ∀ k', some k = some k' → Tid.lifecycle k = .lifecycle k' ∧
      ∃ c, k' ∈ s₂.mem.tentative ∧ s₂.row k' = some c ∧ c.id ∉ s₂.ledger.sent := by
    rintro k' ⟨⟩
    exact ⟨rfl, c, hk₂, hc₂, hn₂⟩
  have hf₂ : ∀ c', k ∈ s₂.mem.tentative → s₂.row k = some c' → c'.id ∉ s₂.ledger.filed := by
    intro c' hk' hc'
    rw [he₂] at hk' hc' ⊢
    exact hi₁.not_filed (by rw [hfree]; nofun) hk' hc'
  refine ⟨hg₁, Outline.wp_call (wp_write hl₂ hm₂ (by rw [he₂]; rfl) nofun hcom) fun r s₃ w => ?_⟩
  cases r with
  | error err =>
    refine Wp.request (w.silent.live hl₂) fun s₄ h₄ hi₄ _ s₅ hs₅ => ?_
    have hg₄ : AskGuard cfg s₄ (.lifecycle k) .unlockSave () := by
      rintro k' c' ⟨⟩ hk' hc'
      have ho := h₄.own k rfl
      have hk₃ := ho.tentative.mp hk'
      rw [(h₄.mine.held w.saveMu).2.2.1]
      exact w.unfiled (.inr nofun) rfl hf₂ hk₃ ((ho.fixed hk₃).symm.trans hc')
    have q₅ := (w.silent.trans h₄.silent).trans (.asked hs₅ hg₄ nofun nofun nofun nofun)
    refine ⟨hg₄, Wp.ret (q₅.live hl₂) fun s₆ h₆ _ => ?_⟩
    have hf₆ : s₆.saveMu ≠ some (.lifecycle k) := h₆.mine.free (by
      rw [answer_unlockSave hs₅]; nofun)
    exact ⟨(h₁.silent.trans (.lock hs₂ (q₅.trans h₆.silent) hf₆)).toQuiet, hf₆⟩
  | ok u =>
    refine Wp.enter (w.silent.live hl₂) fun s₄ h₄ hi₄ => ?_
    have q₄ := w.silent.trans h₄.silent
    have o₄ := q₄.own k rfl
    have hk₄ : k ∈ s₄.mem.tentative := o₄.tentative.mpr hk₂
    have hc₄ : s₄.row k = some c := (o₄.fixed hk₂).trans hc₂
    obtain ⟨hm₄, hd₄, -⟩ := h₄.mine.held w.saveMu
    have hg₄ : SectionGuard cfg s₄ (.lifecycle k) (.clearTentative k) := by
      have hdec₄ : (s₄.ledger.progress k).declined = true := by
        rw [o₄.progress, he₂]
        change (s₁.ledger.progress k).declined = true
        rw [o₁.progress]
        exact hdec
      refine ⟨rfl, hm₄, hk₄, c, hc₄, q₄.unsent k rfl c hk₂ hc₂ hn₂, fun hp => ?_, hdec₄⟩
      obtain ⟨s', h', -, hfile, -⟩ := w.ok rfl hp
      have hrow : s'.mem.claims.lookup k = some c := ((h'.own k rfl).fixed hk₂).trans hc₂
      rw [State.content, hd₄, hfile]
      simp only [File.content, StateFile.marshal, Table.lookup_pick, Option.bind_eq_some_iff]
      exact ⟨c, Memory.lookup_snapshot.mpr ⟨hrow, .inr rfl⟩, rfl⟩
    have e₅ : Evolves s₄ (s₄.entered (.clearTentative k)) := .locked hi₄ hg₄ id
    have e₀₅ : Evolves s (s₄.entered (.clearTentative k)) := (e₂.trans q₄.evolves).trans e₅
    have hk₅ : k ∉ (s₄.entered (.clearTentative k)).mem.tentative := Finset.notMem_erase k _
    refine ⟨hg₄, Wp.request (e₀₅.live hl) fun s₆ h₆ hi₆ _ s₇ hs₇ => ?_⟩
    have hg₆ : AskGuard cfg s₆ (.lifecycle k) .unlockSave () := by
      rintro k' c' ⟨⟩ hk' -
      exact absurd ((h₆.own k rfl).tentative.mp hk') hk₅
    have q₇ := h₆.quiet.trans (.asked hs₇ hg₆ nofun nofun nofun)
    refine ⟨hg₆, Wp.ret (q₇.live (e₀₅.live hl)) fun s₈ h₈ _ => ?_⟩
    have q₈ := q₇.trans h₈.quiet
    have o₈ := q₈.own k rfl
    have hp₄ : s₄.mem.pods.lookup k = s.mem.pods.lookup k := by
      rw [o₄.pods, he₂]
      exact o₁.pods
    exact {
      evolves := e₀₅.trans q₈.evolves
      calls := by
        rw [q₈.calls]
        change s₄.ledger.calls _ = _
        rw [q₄.calls, he₂]
        exact h₁.mine.calls
      free := h₈.mine.free (by rw [answer_unlockSave hs₇]; nofun)
      pods := o₈.pods.trans hp₄
      progress := by
        rw [o₈.progress]
        change s₄.ledger.progress k = _
        rw [o₄.progress, he₂]
        exact o₁.progress
      tentative := fun h => hk₅ (o₈.tentative.mp h)
      quarantined := fun h => by
        have h₅ : k ∈ s₄.mem.quarantined := o₈.quarantined h
        have h₃ := o₄.quarantined h₅
        rw [he₂] at h₃
        exact o₁.quarantined h₃
      row := (o₈.kept hc₄).imp_right fun h => ⟨h.1, h.2.imp_right fun hp => hp₄.symm.trans hp⟩
      saved := fun hp => by
        obtain ⟨s', h', -, -, hin, -⟩ := w.ok rfl hp
        have hin₅ : s₄.disk.instant = some s'.instant := by rw [hd₄, hin]
        obtain ⟨n, hn, hle⟩ := q₈.evolves.disk hin₅
        exact ⟨n, hn, e₂.instant.trans (h'.evolves.instant.trans hle)⟩ }

end VkSandbox
