import VkSandbox.Properties.Authority
import VkSandbox.Properties.Generations
import VkSandbox.Properties.Succession

/-!
# Properties/Lineage — from Pod to Pod at one key

    CreatePod(P₀)      DeletePod(P₀)      CreatePod(P₁)   crash   CreatePod(P₂)
     b₀: s ── P₀ ─────── keeps s ────────── b₁: s ── P₁ ───────────  b₂: s ── P₂
          └────────────── heir ──────────────┘└────────── heir ─────────┘

A row says by whom it may be adopted: the UID and the authority of the Pod it was last bound to, and
the controller that Pod had when it was deleted.  So each binding of a sandbox that was bound before
has a parent whose heir it is.  The parent of a binding is never older than one whose `CreatePod`
has returned, because by then the file is a version no older.
-/

namespace VkSandbox

open Interleave

variable {cfg : Config} {s s' : State} {t : Tid} {a : Section} {k : Key} {c c' : Claim} {pod : Pod}
  {ev : Ev} {id : String} {n : ℕ} {b b' : Binding}

/-! ## The last binding of a key -/

/-- The last binding at `k`. -/
def State.lastBinding (s : State) (k : Key) : Option Binding := s.ledger.bindings.find? (·.key = k)

/-- The bindings are in order, newest first. -/
def Ordered (s : State) : Prop := s.ledger.bindings.Pairwise fun b b' => b'.instant < b.instant

/-- The section binds the key `k`. -/
def BindsAt (a : Section) (s : State) (k : Key) : Prop :=
  (∃ pod c, a = .adoptExistingClaim k pod ∧ s.mem.adopted k pod = some c) ∨
    ∃ pod c, a = .insertClaim k pod c

/-- A section adds at most one binding, in front. -/
theorem Ledger.bindingsAfter_cases (a : Section) (s : State) :
    s.ledger.bindingsAfter a s = s.ledger.bindings ∨
    ∃ b, s.ledger.bindingsAfter a s = b :: s.ledger.bindings ∧ b.instant = s.instant + 1 ∧
      BindsAt a s b.key := by
  cases a with
  | adoptExistingClaim key pod =>
    simp only [Ledger.bindingsAfter]
    split
    · next c hc => exact .inr ⟨_, rfl, rfl, .inl ⟨pod, c, rfl, hc⟩⟩
    · exact .inl rfl
  | insertClaim key pod c => exact .inr ⟨_, rfl, rfl, .inr ⟨pod, c, rfl⟩⟩
  | _ => exact .inl rfl

theorem Ordered.step (h : Ordered s) (hn : Numbered s) (hs : apply ev s = some s') :
    Ordered s' := by
  obtain hsame | ⟨t, a, rfl, hnew⟩ := (effect hs).bindings
  · rw [Ordered, hsame]
    exact h
  · rw [Ordered, hnew]
    obtain hsame | ⟨b, hcons, hinst, -⟩ := Ledger.bindingsAfter_cases a s
    · rw [hsame]
      exact h
    · rw [hcons]
      refine List.pairwise_cons.mpr ⟨fun b' hb' => ?_, h⟩
      rw [hinst]
      exact Nat.lt_succ_of_le (hn.bindings hb').2.1

/-- No other binding of the key is as late. -/
theorem Ordered.eq_last (h : Ordered s) (hlast : s.lastBinding k = some b)
    (hb : b' ∈ s.ledger.bindings) (hk : b'.key = k) (hle : b.instant ≤ b'.instant) : b' = b := by
  obtain ⟨-, l₁, l₂, hl, hno⟩ := List.find?_eq_some_iff_append.mp hlast
  rw [hl] at hb
  rw [Ordered, hl] at h
  obtain hb | hb := List.mem_append.mp hb
  · exact absurd hk (by simpa using hno b' hb)
  · obtain rfl | hb := List.mem_cons.mp hb
    · rfl
    · have hlt := (List.pairwise_cons.mp (List.pairwise_append.mp h).2.1).1 b' hb
      exact absurd hle (not_le.mpr hlt)

/-- No two bindings are made at one instant. -/
theorem Ordered.inj (h : Ordered s) (hb : b ∈ s.ledger.bindings) (hb' : b' ∈ s.ledger.bindings)
    (he : b.instant = b'.instant) : b = b' := by
  have hnodup : (s.ledger.bindings.map (·.instant)).Nodup :=
    List.pairwise_map.mpr (h.imp fun h => h.ne')
  exact List.inj_on_of_nodup_map hnodup hb hb' he

theorem State.mem_of_lastBinding (h : s.lastBinding k = some b) :
    b ∈ s.ledger.bindings ∧ b.key = k :=
  ⟨List.mem_of_find?_eq_some h, by simpa using List.find?_some h⟩

theorem State.lastBinding_entered (h : ¬ BindsAt a s k) :
    (s.entered a).lastBinding k = s.lastBinding k := by
  change (s.ledger.bindingsAfter a s).find? _ = _
  obtain hsame | ⟨b, hcons, -, hb⟩ := Ledger.bindingsAfter_cases a s
  · rw [hsame]
    rfl
  · rw [hcons, List.find?_cons_of_neg]
    · rfl
    · simp only [decide_eq_true_eq]
      rintro rfl
      exact h hb

/-! ## What a call in progress has bound -/

/-- **What the call `n` in progress at `k` has bound**: its binding is the key's last, and since
then the row, if there is one, is as that binding left it. -/
structure BoundNow (s : State) (k : Key) (n : ℕ) (b : Binding) : Prop where
  last : s.lastBinding k = some b
  call : b.call = n
  serves : s.Serves (.lifecycle k) b.pod
  touched : b.instant ≤ (s.ledger.progress k).touched
  rows : ∀ {i m c}, b.instant ≤ i → s.memAt i = some m → m.claims.lookup k = some c →
    c.id = b.id ∧ c.BoundTo b.pod

/-- Every call in progress accounts for what it has bound. -/
def Accounted (s : State) : Prop :=
  ∀ {k n op id}, s.ledger.calls (.lifecycle k) = some (n, op) →
    (s.ledger.progress k).bound = some id →
    ∃ b, b.id = id ∧ BoundNow s k n b

/-- A section that does not bind `k` leaves what its call has bound. -/
theorem Ledger.bound_progressAfter (h : ¬ BindsAt a s k) :
    (s.ledger.progressAfter a s k).bound = (s.ledger.progress k).bound := by
  have hupd : ∀ {key : Key} {p : Progress}, (k = key → p.bound = (s.ledger.progress key).bound) →
      (Function.update s.ledger.progress key p k).bound = (s.ledger.progress k).bound := by
    intro key p hp
    by_cases hk : k = key
    · subst hk
      rw [Function.update_self]
      exact hp rfl
    · rw [Function.update_of_ne hk]
  cases a with
  | adoptExistingClaim key pod =>
    refine hupd ?_
    rintro rfl
    cases hc : s.mem.adopted k pod with
    | none => rfl
    | some c => exact absurd (.inl ⟨pod, c, rfl, hc⟩) h
  | insertClaim key pod c =>
    refine hupd ?_
    rintro rfl
    exact absurd (.inr ⟨pod, c, rfl⟩) h
  | withdrawClaim key id | dropClaim key id | preserveClaim key id owner => exact hupd fun _ => rfl
  | load st now => rfl
  | _ => rfl

/-- What a binding section leaves at its key. -/
theorem BindsAt.bound (hg : SectionGuard cfg s t a) (hb : BindsAt a s k) {op : Op}
    (hc : s.ledger.calls (.lifecycle k) = some (n, op)) :
    ∃ b, (s.entered a).lastBinding k = some b ∧ b.call = n ∧ b.instant = s.instant + 1 ∧
      s.Serves (.lifecycle k) b.pod ∧ (a.run s.mem).Shows b ∧ b.key = k ∧
      (s.ledger.progressAfter a s k).bound = some b.id ∧
      (s.ledger.progressAfter a s k).touched = s.instant + 1 := by
  have hcall : ((s.ledger.calls (.lifecycle k)).map (·.1)).getD 0 = n := by rw [hc]; rfl
  obtain ⟨pod, c, rfl, hado⟩ | ⟨pod, c, rfl⟩ := hb
  · obtain ⟨c₀, h₀, hset, had, -, rfl⟩ := Memory.adopted_eq_some hado
    obtain ⟨rfl, -, hserves, -⟩ := hg
    refine ⟨⟨k, c₀.id, pod, n, s.instant + 1⟩, ?_, rfl, rfl, hserves,
      Binds.shows (t := .lifecycle k) (.adopt rfl h₀ hset had rfl), rfl, ?_, ?_⟩
    · change (s.ledger.bindingsAfter (.adoptExistingClaim k pod) s).find? (·.key = k) = _
      simp [Ledger.bindingsAfter, hado, hcall]
    · simp [Ledger.progressAfter, hado]
    · simp [Ledger.progressAfter]
  · obtain ⟨rfl, -, hserves, -, res, now, hres, rfl, -⟩ := hg
    refine ⟨⟨k, res.id, pod, n, s.instant + 1⟩, ?_, rfl, rfl, hserves,
      Binds.shows (t := .lifecycle k) (.insert rfl hres rfl), rfl, ?_, ?_⟩
    · change (s.ledger.bindingsAfter (.insertClaim k pod _) s).find? (·.key = k) = _
      simp [Ledger.bindingsAfter, hcall]
    · simp [Ledger.progressAfter]
    · simp [Ledger.progressAfter]

/-- Outside a binding section an edit of a row that is being served is a new deadline. -/
theorem Section.Edits.boundTo (h : a.Edits s.mem k c c') (hg : SectionGuard cfg s t a)
    (hno : ¬ BindsAt a s k) (hserves : s.Serves (.lifecycle k) pod) (hrow : s.row k = some c)
    {pod' : Pod} (hc : c.BoundTo pod') : c'.BoundTo pod' := by
  cases h with
  | deadline d => exact ⟨hc.podUID, hc.authority, hc.owner⟩
  | @rebind p ha hset had =>
    refine absurd (.inl ⟨p, c.rebind p, ha, ?_⟩) hno
    rw [State.row] at hrow
    simp [Memory.adopted, hrow, hset, had]
  | preserve ha =>
    subst ha
    obtain ⟨rfl, p, hdel, -⟩ := hg
    exact absurd hdel (hserves.not_deletes p)

/-- A call goes on serving its Pod. -/
theorem State.Serves.of_calls (h : s.Serves t pod) (hc : s'.ledger.calls t = s.ledger.calls t) :
    s'.Serves t pod := by
  obtain ⟨m, hm⟩ := h
  exact ⟨m, by rwa [hc]⟩

namespace BoundNow

/-- A section of a running provider that does not bind `k`. -/
theorem entered (h : BoundNow s k n b) (hi : Inv cfg s) (hnum : Numbered s)
    (hg : Guard cfg (.locked t a) s) (hno : ¬ BindsAt a s k) : BoundNow (s.entered a) k n b where
  last := (State.lastBinding_entered hno).trans h.last
  call := h.call
  serves := h.serves.of_calls rfl
  touched := by
    change _ ≤ (s.ledger.progressAfter a s k).touched
    obtain hsame | hnew := Ledger.touched_progressAfter (a := a) (s := s) (l := s.ledger) (k := k)
    · rw [hsame]
      exact h.touched
    · rw [hnew]
      exact (hnum.bindings (State.mem_of_lastBinding h.last).1).2.1.trans (Nat.le_succ _)
  rows := fun {i m c} hle hm hc => by
    have he := effect (show apply (.locked t a) s = some (s.entered a) from rfl)
    obtain hm | ⟨-, rfl⟩ := he.memAt_cases hm
    · exact h.rows hle hm hc
    obtain ⟨c₀, h₀, hedit⟩ | hcr := Section.row_edit (a := a) (m := s.mem) hc
    · have hb₀ := h.rows (hnum.bindings (State.mem_of_lastBinding h.last).1).2.1 s.memAt_instant h₀
      exact ⟨hedit.same.id.trans hb₀.1, hedit.boundTo hg.2 hno h.serves h₀ hb₀.2⟩
    · cases a with
      | load st now =>
        obtain ⟨hlive, rfl, -⟩ := hg
        have hup : s.phase = .up := by
          obtain ⟨m, hm | hm⟩ := h.serves <;> exact hi.up (by rw [hm]; rfl)
        cases hup.symm.trans hlive
      | insertClaim key pod c₁ =>
        obtain ⟨rfl, rfl⟩ := hcr
        exact absurd (.inr ⟨pod, c, rfl⟩) hno
      | _ => exact hcr.elim

/-- An event that is not a section. -/
theorem other (h : BoundNow s k n b) (hs : apply ev s = some s') (hno : ∀ t a, ev ≠ .locked t a)
    (hcalls : s'.ledger.calls (.lifecycle k) = s.ledger.calls (.lifecycle k))
    (ht : (s'.ledger.progress k).touched = (s.ledger.progress k).touched) : BoundNow s' k n b where
  last := by
    obtain hsame | ⟨t, a, he, -⟩ := (effect hs).bindings
    · rw [State.lastBinding, hsame]
      exact h.last
    · exact absurd he (hno t a)
  call := h.call
  serves := h.serves.of_calls hcalls
  touched := by
    rw [ht]
    exact h.touched
  rows := fun {i m c} hle hm hc => by
    obtain hm | ⟨t, a, he, -⟩ | ⟨-, rfl⟩ := (effect hs).memAt_back hm
    · exact h.rows hle hm hc
    · exact absurd he (hno t a)
    · simp at hc

end BoundNow

/-- **Every call in progress accounts for what it has bound**, whatever comes next. -/
theorem Accounted.step (h : Accounted s) (hi : Inv cfg s) (hnum : Numbered s) (hg : Guard cfg ev s)
    (hs : apply ev s = some s') : Accounted s' := by
  intro k n op id hc hb
  obtain hold | ⟨rfl, rfl, -⟩ := (effect hs).calls_back hc
  swap
  · -- a call that begins has bound nothing
    obtain ⟨ht, -⟩ | ⟨-, -, -, -, rfl⟩ := apply_started hs
    · cases ht
    · simp [State.record, Ledger.begin] at hb
  by_cases hl : ∃ t a, ev = .locked t a
  · obtain ⟨t, a, rfl⟩ := hl
    cases hs
    change (s.ledger.progressAfter a s k).bound = some id at hb
    by_cases hbind : BindsAt a s k
    · obtain ⟨b, hlast, hcall, hinst, hserves, hshows, rfl, hbound, htouch⟩ := hbind.bound hg.2 hold
      obtain rfl : b.id = id := Option.some.inj (hbound.symm.trans hb)
      refine ⟨b, rfl, hlast, hcall, hserves.of_calls rfl, ?_, fun {i m c} hle hm hc => ?_⟩
      · change _ ≤ (s.ledger.progressAfter a s b.key).touched
        rw [htouch, hinst]
      · have he := effect (show apply (.locked t a) s = some (s.entered a) from rfl)
        obtain hm | ⟨-, rfl⟩ := he.memAt_cases hm
        · exact absurd (State.memAt_le hm) (by omega)
        · obtain ⟨c', hc', hid, hbt⟩ := hshows.row
          obtain rfl := Option.some.inj (hc'.symm.trans hc)
          exact ⟨hid, hbt⟩
    · rw [Ledger.bound_progressAfter hbind] at hb
      obtain ⟨b, hid, hbn⟩ := h hold hb
      exact ⟨b, hid, hbn.entered hi hnum hg hbind⟩
  · have hl : ∀ t a, ev ≠ .locked t a := fun t a he => hl ⟨t, a, he⟩
    have hkeep : (s.ledger.progress k).bound = some id →
        (s'.ledger.progress k).touched = (s.ledger.progress k).touched →
        ∃ b, b.id = id ∧ BoundNow s' k n b := fun hb ht => by
      obtain ⟨b, hid, hbn⟩ := h hold hb
      exact ⟨b, hid, hbn.other hs hl (hc.trans hold.symm) ht⟩
    obtain hp | ⟨op', -, hnone, -⟩ | ⟨t, a, rfl, -⟩ | ⟨t, spec, res, -, -, hp⟩ | ⟨rfl, -⟩ :=
      (effect hs).progress k
    · exact hkeep (hp ▸ hb) (by rw [hp])
    · cases hold.symm.trans hnone
    · exact absurd rfl (hl t a)
    · rw [hp] at hb
      exact hkeep hb (by rw [hp])
    · rw [calls_crashed hs] at hc
      cases hc

/-- The last binding of a key is the latest. -/
theorem Ordered.le_last (h : Ordered s) (hlast : s.lastBinding k = some b)
    (hb : b' ∈ s.ledger.bindings) (hk : b'.key = k) : b'.instant ≤ b.instant := by
  by_contra hlt
  obtain rfl := h.eq_last hlast hb hk (not_le.mp hlt).le
  exact hlt le_rfl

/-! ## Deletes name their Pod -/

/-- The key and the Pod of a `DeletePod` that begins. -/
def deleting : Ev → Option (Key × Pod)
  | .started (.lifecycle k) (.deletePod pod) => some (k, pod)
  | _ => none

/-- **A delete at a key that holds a claim names the Pod whose UID the claim records.** -/
def DeletesHolder (ev : Ev) (s : State) : Prop :=
  ∀ e ∈ deleting ev, ∀ c ∈ s.row e.1, c.podUID = e.2.uid

instance (ev : Ev) (s : State) : Decidable (DeletesHolder ev s) :=
  inferInstanceAs (Decidable (∀ e ∈ deleting ev, ∀ c ∈ s.row e.1, _))

/-- A delete in progress is on record, and names the Pod its claim records. -/
structure DeletesOwn (s : State) : Prop where
  holder : ∀ {k pod c}, s.Deletes (.lifecycle k) pod → s.row k = some c → c.podUID = pod.uid
  logged : ∀ {t pod}, s.Deletes t pod → pod ∈ s.ledger.deletes

theorem Effect.deletes_mono (he : Effect ev s s') : s.ledger.deletes ⊆ s'.ledger.deletes := by
  obtain hsame | ⟨t, pod, -, hnew⟩ := he.deletes
  · rw [hsame]
    exact fun _ => id
  · rw [hnew]
    exact List.subset_cons_self _ _

theorem DeletesOwn.locked (h : DeletesOwn s) (hi : Inv cfg s) (hg : Guard cfg (.locked t a) s)
    (hdel : s.Deletes (.lifecycle k) pod) (hc : (a.run s.mem).claims.lookup k = some c) :
    c.podUID = pod.uid := by
  obtain ⟨c₀, h₀, hedit⟩ | hcr := Section.row_edit hc
  · rw [hedit.podUID]
    · exact h.holder hdel h₀
    · rintro pod' rfl
      obtain ⟨-, rfl, -, hserves, -⟩ := hg
      exact hserves.not_deletes pod hdel
  · cases a with
    | load st now =>
      obtain ⟨hlive, rfl, -⟩ := hg
      obtain ⟨n, hn⟩ := hdel
      cases (hi.up (by rw [hn]; rfl)).symm.trans hlive
    | insertClaim key pod' c₁ =>
      obtain ⟨rfl, rfl⟩ := hcr
      obtain ⟨-, rfl, -, hserves, -⟩ := hg
      exact absurd hdel (hserves.not_deletes pod)
    | _ => exact hcr.elim

theorem DeletesOwn.step (h : DeletesOwn s) (hi : Inv cfg s) (hg : Guard cfg ev s)
    (hs : apply ev s = some s') (hC : DeletesHolder ev s) : DeletesOwn s' where
  holder := fun {k pod c} hdel hc => by
    obtain ⟨hm, -⟩ | ⟨t, a, rfl, hm, -⟩ | ⟨-, hm, -⟩ :=
      (effect hs).tables <;> rw [State.row, hm] at hc
    · obtain hold | rfl := (effect hs).deletes_back hdel
      · exact h.holder hold hc
      · exact hC _ rfl c hc
    · obtain hold | he := (effect hs).deletes_back hdel
      · exact h.locked hi hg hold hc
      · cases he
    · simp at hc
  logged := fun {t pod} hdel => by
    obtain hold | rfl := (effect hs).deletes_back hdel
    · exact (effect hs).deletes_mono (h.logged hold)
    · obtain ⟨ht, hop, -⟩ | ⟨-, -, -, -, rfl⟩ := apply_started hs
      · cases hop
      · exact List.mem_cons_self

theorem deletesOwn_initial (file : File) : DeletesOwn (State.initial file) where
  holder := fun ⟨n, hn⟩ => by cases hn
  logged := fun ⟨n, hn⟩ => by cases hn

/-! ## Heirs -/

/-- The row is as `b` bound it, but that a delete of its Pod may have recorded the controller. -/
structure Claim.Of (s : State) (b : Binding) (c : Claim) : Prop where
  podUID : c.podUID = b.pod.uid
  authority : c.authority = some (authorityOf b.pod)
  owner : ∀ ref, c.owner = some ref →
    ∃ p ∈ s.ledger.deletes, p.key = b.key ∧ p.uid = b.pod.uid ∧ controllerOf p = some ref

/-- **`b'` is an heir of `b`**: a later binding of the same sandbox at the same key, for a Pod with
the UID of `b`'s Pod, or with the authority this Pod had when it was bound or deleted. -/
structure Heir (s : State) (b b' : Binding) : Prop where
  left : b ∈ s.ledger.bindings
  right : b' ∈ s.ledger.bindings
  key : b'.key = b.key
  id : b'.id = b.id
  lt : b.instant < b'.instant
  pod : b'.pod.uid = b.pod.uid ∨ authorityOf b'.pod = authorityOf b.pod ∨
    ∃ p ∈ s.ledger.deletes, p.key = b.key ∧ p.uid = b.pod.uid ∧ authorityOf p = authorityOf b'.pod

/-- **The line of `b₀`**: its heirs, and the heirs of those whose own call did not return. -/
inductive Line (s : State) (b₀ : Binding) : Binding → Prop where
  | heir {b₁ : Binding} : Heir s b₀ b₁ → Line s b₀ b₁
  | through {b₁ b₂ : Binding} : Line s b₀ b₁ → b₁.call ∉ s.ledger.returned → Heir s b₁ b₂ →
      Line s b₀ b₂

theorem Claim.Of.mono (h : c.Of s b) (he : s.ledger.deletes ⊆ s'.ledger.deletes) : c.Of s' b where
  podUID := h.podUID
  authority := h.authority
  owner := fun ref hr => by
    obtain ⟨p, hp, hrest⟩ := h.owner ref hr
    exact ⟨p, he hp, hrest⟩

theorem Claim.BoundTo.of (h : c.BoundTo b.pod) : c.Of s b where
  podUID := h.podUID
  authority := h.authority
  owner := fun _ hr => absurd (h.owner.symm.trans hr) nofun

/-- Whoever may adopt the row is an heir. -/
theorem Claim.Of.heir (h : c.Of s b) (had : c.adoptableBy pod) :
    pod.uid = b.pod.uid ∨ authorityOf pod = authorityOf b.pod ∨
      ∃ p ∈ s.ledger.deletes, p.key = b.key ∧ p.uid = b.pod.uid ∧
        authorityOf p = authorityOf pod := by
  unfold Claim.adoptableBy Claim.answersTo at had
  cases ho : c.owner with
  | none =>
    simp only [ho, h.authority, Bool.or_eq_true, decide_eq_true_eq] at had
    obtain hu | hu := had
    · exact .inl (hu.symm.trans h.podUID)
    · exact .inr (.inl hu.symm)
  | some ref =>
    simp only [ho, Bool.or_eq_true, decide_eq_true_eq] at had
    obtain hu | hu := had
    · exact .inl (hu.symm.trans h.podUID)
    · obtain ⟨p, hp, hk, hpu, hctl⟩ := h.owner ref ho
      exact .inr (.inr ⟨p, hp, hk, hpu, by rw [authorityOf, hctl]; exact hu⟩)

theorem Heir.mono (h : Heir s b b') (he : Effect ev s s') : Heir s' b b' where
  left := he.bindings_mono h.left
  right := he.bindings_mono h.right
  key := h.key
  id := h.id
  lt := h.lt
  pod := h.pod.imp_right fun h => h.imp_right fun ⟨p, hp, hrest⟩ => ⟨p, he.deletes_mono hp, hrest⟩

/-! ## Where the rows of a key come from -/

/-- The row at `b₀`'s key, as long as it is `b₀`'s sandbox, is that of a binding no older than
`b₀`. -/
def Descends (s : State) (b₀ : Binding) (k : Key) (c : Claim) : Prop :=
  k = b₀.key → c.id = b₀.id → ∃ b ∈ s.ledger.bindings, b.key = b₀.key ∧ b.id = b₀.id ∧
    b₀.instant ≤ b.instant ∧ c.Of s b

/-- **From `b₀` on**, every version of the row at its key descends from it, and so does every
binding of its sandbox there. -/
structure Descent (cfg : Config) (b₀ : Binding) (s : State) : Prop where
  rows : Upheld cfg b₀.instant (Descends s b₀) s
  mem : b₀ ∈ s.ledger.bindings
  parents : ∀ {b'}, b' ∈ s.ledger.bindings → b'.key = b₀.key → b'.id = b₀.id →
    b₀.instant < b'.instant → ∃ b, b₀.instant ≤ b.instant ∧ Heir s b b'

theorem Upheld.mono {Q Q' : Key → Claim → Prop} (h : Upheld cfg n Q s)
    (hQ : ∀ {k c}, Q k c → Q' k c) :
    Upheld cfg n Q' s :=
  ⟨fun hle hm hc => hQ (h.seen hle hm hc), h.le, fun hp _ _ hc => hQ (h.file hp hc), h.caught⟩

theorem Descends.mono {b₀ : Binding} (h : Descends s b₀ k c) (he : Effect ev s s') :
    Descends s' b₀ k c := fun hk hid => by
  obtain ⟨b, hb, hbk, hbid, hle, hof⟩ := h hk hid
  exact ⟨b, he.bindings_mono hb, hbk, hbid, hle, hof.mono he.deletes_mono⟩

/-- A binding section leaves a row of its own binding. -/
theorem Descends.of_binding {b₀ : Binding} (hb : b ∈ s.ledger.bindings)
    (hle : b₀.instant ≤ b.instant) (hk : b.key = k) (hid : c.id = b.id) (hbt : c.BoundTo b.pod) :
    Descends s b₀ k c := fun hk' hid' =>
  ⟨b, hb, hk.trans hk', hid.symm.trans hid', hle, hbt.of⟩

namespace Descent

variable {b₀ : Binding}

theorem rows_step (h : Descent cfg b₀ s) (hown : DeletesOwn s) (hg : Guard cfg ev s)
    (hs : apply ev s = some s') : Upheld cfg b₀.instant (Descends s' b₀) s' := by
  have he := effect hs
  -- a row bound by this event is that of its own binding
  have hbound : ∀ {t a k c}, ev = .locked t a → BindsAt a s k →
      (a.run s.mem).claims.lookup k = some c → Descends s' b₀ k c := by
    rintro t a k c rfl hb hc
    obtain ⟨n, op, hcall⟩ : ∃ n op, s.ledger.calls (.lifecycle k) = some (n, op) := by
      obtain ⟨pod, c₁, rfl, -⟩ | ⟨pod, c₁, rfl⟩ := hb
      · obtain ⟨-, rfl, -, ⟨n, hn | hn⟩, -⟩ := hg <;> exact ⟨n, _, hn⟩
      · obtain ⟨-, rfl, -, ⟨n, hn | hn⟩, -⟩ := hg <;> exact ⟨n, _, hn⟩
    obtain ⟨b, hlast, -, hinst, -, hshows, hk, -⟩ := hb.bound hg.2 hcall
    obtain ⟨c', hc', hid, hbt⟩ := hshows.row
    rw [hk] at hc'
    obtain rfl := Option.some.inj (hc'.symm.trans hc)
    cases hs
    exact .of_binding (State.mem_of_lastBinding hlast).1
      (hinst ▸ h.rows.le.trans (Nat.le_succ _)) hk hid hbt
  refine (h.rows.mono fun hq => hq.mono he).step (fun {k c} hq hk hid => ?_) hg hs
    ⟨fun {t a k c c'} hev hc hedit hq => ?_, fun {t st now k c} _ hq hk hid => ?_, ?_⟩
  · obtain ⟨b, hb, hbk, hbid, hle, hof⟩ := hq hk hid
    exact ⟨b, hb, hbk, hbid, hle, hof.podUID, hof.authority, hof.owner⟩
  · cases hedit with
    | deadline d =>
      intro hk hid
      obtain ⟨b, hb, hbk, hbid, hle, hof⟩ := hq hk hid
      exact ⟨b, hb, hbk, hbid, hle, hof.podUID, hof.authority, hof.owner⟩
    | @rebind pod ha hset had =>
      subst ha
      refine hbound hev (.inl ⟨pod, c.rebind pod, rfl, ?_⟩) ?_
      · rw [State.row] at hc
        simp [Memory.adopted, hc, hset, had]
      · exact (Memory.claimFor_eq_some.mp (Memory.claimFor_adopted hc hset had)).2
    | @preserve owner ha =>
      subst ha
      subst hev
      obtain ⟨-, rfl, p, hdel, hpk, rfl, -⟩ := hg
      rintro rfl hid
      obtain ⟨b, hb, hbk, hbid, hle, hof⟩ := hq rfl hid
      refine ⟨b, hb, hbk, hbid, hle, hof.podUID, hof.authority, fun ref hr => ?_⟩
      exact ⟨p, he.deletes_mono (hown.logged hdel), hpk.trans hbk.symm,
        (hown.holder hdel hc).symm.trans hof.podUID, hr⟩
  · have hid' : c.id = b₀.id := by
      split at hid
      · exact hid
      · exact hid
    obtain ⟨b, hb, hbk, hbid, hle, hof⟩ := hq hk hid'
    refine ⟨b, hb, hbk, hbid, hle, ?_⟩
    split
    · exact ⟨hof.podUID, hof.authority, hof.owner⟩
    · exact hof
  · rintro t k pod c rfl
    exact hbound rfl (.inr ⟨pod, c, rfl⟩) (Finmap.lookup_insert _)

theorem step (h : Descent cfg b₀ s) (hi : Inv cfg s) (hnum : Numbered s) (hown : DeletesOwn s)
    (hg : Guard cfg ev s) (hs : apply ev s = some s') : Descent cfg b₀ s' where
  rows := h.rows_step hown hg hs
  mem := (effect hs).bindings_mono h.mem
  parents := fun {b'} hb' hk hid hlt => by
    obtain hold | ⟨hbinds, hinst, -⟩ := (effect hs).binding_back hg hb'
    · obtain ⟨b, hle, hheir⟩ := h.parents hold hk hid hlt
      exact ⟨b, hle, hheir.mono (effect hs)⟩
    cases hbinds with
    | @adopt c _ hc _ had hcid =>
      obtain ⟨b, hb, hbk, hbid, hle, hof⟩ := h.rows.row hc hk (hcid.trans hid)
      refine ⟨b, hle, (effect hs).bindings_mono hb, hb', hk.trans hbk.symm, hid.trans hbid.symm, ?_,
        (hof.mono (effect hs).deletes_mono).heir had⟩
      rw [hinst]
      exact Nat.lt_succ_of_le (hnum.bindings hb).2.1
    | @insert res now _ hres hrid =>
      -- the sandbox of `b₀` is not new
      obtain ⟨m, hm, hshows⟩ := hnum.shown h.mem
      obtain ⟨c, hc, hcid, -⟩ := hshows.row
      exact absurd (hcid.trans (hid.symm.trans hrid.symm))
        ((hi.hand hres).2.2.2.2.2 ⟨_, hm⟩ (Memory.holds_row hc))

/-- **Every later binding of the sandbox at the key is of the line of `b₀`**, if no other call that
bound it since has returned. -/
theorem line (h : Descent cfg b₀ s) (hord : Ordered s) (hb : b ∈ s.ledger.bindings)
    (hk : b.key = b₀.key) (hid : b.id = b₀.id) (hlt : b₀.instant < b.instant)
    (hno : ∀ b' ∈ s.ledger.bindings, b'.key = b₀.key → b'.id = b₀.id → b₀.instant < b'.instant →
      b'.instant < b.instant → b'.call ∉ s.ledger.returned) : Line s b₀ b := by
  induction hn : b.instant using Nat.strong_induction_on generalizing b with
  | _ n ih =>
    subst hn
    obtain ⟨b₁, hle, hheir⟩ := h.parents hb hk hid hlt
    have hk₁ : b₁.key = b₀.key := hheir.key.symm.trans hk
    have hid₁ : b₁.id = b₀.id := hheir.id.symm.trans hid
    obtain heq | hlt₁ := hle.eq_or_lt
    · obtain rfl := hord.inj h.mem hheir.left heq
      exact .heir hheir
    · refine .through
        (ih b₁.instant hheir.lt hheir.left hk₁ hid₁ hlt₁ (fun b' hb' hk' hid' hlt' hlt'' =>
        hno b' hb' hk' hid' hlt' (hlt''.trans hheir.lt)) rfl)
        (hno b₁ hheir.left hk₁ hid₁ hlt₁ hheir.lt) hheir

end Descent

/-! ## Only new sandboxes come after -/

/-- **From `b₀` on** its key has its sandbox, or one that was not issued then. -/
structure Renewed (cfg : Config) (old : Finset String) (b₀ : Binding) (s : State) : Prop where
  issued : old ⊆ s.ledger.issuedIds
  hand : ∀ {res}, (s.ledger.progress b₀.key).inHand = some res → res.id ∉ old
  rows : Upheld cfg b₀.instant (fun k c => k = b₀.key → c.id = b₀.id ∨ c.id ∉ old) s

theorem Renewed.step {old : Finset String} {b₀ : Binding} (h : Renewed cfg old b₀ s)
    (hg : Guard cfg ev s) (hs : apply ev s = some s') : Renewed cfg old b₀ s' where
  issued := h.issued.trans (Finset.image_subset_image (effect hs).issued)
  hand := fun hres => by
    obtain hold | ⟨hnew, -⟩ := inHand_back hs hres
    · exact h.hand hold
    · exact fun ho => hnew (h.issued ho)
  rows := by
    refine h.rows.step (fun hq => hq) hg hs ⟨fun _ _ hedit hq hk => ?_, fun _ hq => ?_, ?_⟩
    · rw [hedit.same.id]
      exact hq hk
    · split
      · exact hq
      · exact hq
    · rintro t k pod c rfl rfl
      obtain ⟨-, -, -, -, -, res, now, hres, rfl, -⟩ := hg
      exact .inr (h.hand hres)

/-! ## What a call that returns leaves in the file -/

/-- A call that has saved what it bound upholds it. -/
theorem BoundNow.upheld {found : File} {Q : Key → Claim → Prop} (h : BoundNow s k n b)
    (hnum : Numbered s) (hp : Projected found s)
    (hsaved : cfg.statePath → ∃ i, s.disk.instant = some i ∧ (s.ledger.progress k).touched ≤ i)
    (hQ : ∀ {c}, c.id = b.id → c.BoundTo b.pod → Q k c) (hother : ∀ {k' c}, k' ≠ k → Q k' c) :
    Upheld cfg b.instant Q s where
  seen := fun {i m k' c} hle hm hc => by
    by_cases hk : k' = k
    · subst hk
      exact hQ (h.rows hle hm hc).1 (h.rows hle hm hc).2
    · exact hother hk
  le := (hnum.bindings (State.mem_of_lastBinding h.last).1).2.1
  file := fun hsp {k' c} hc => by
    by_cases hk : k' = k
    · subst hk
      obtain ⟨i, hi, hle⟩ := hsaved hsp
      obtain ⟨m, c₀, hm, h₀, rfl⟩ := hp.row hi hc
      obtain ⟨hid, hbt⟩ := h.rows (h.touched.trans hle) hm h₀
      exact hQ hid ⟨hbt.podUID, hbt.authority, hbt.owner⟩
    · exact hother hk
  caught := fun hsp => by
    obtain ⟨i, hi, hle⟩ := hsaved hsp
    exact .inl ⟨i, hi, h.touched.trans hle⟩

/-- A claim is finished, dropped as expired, or safe. -/
def State.Kept (cfg : Config) (tr : List Ev) (s : State) (cr : Credential) : Prop :=
  s.Finished cr.id ∨ (cfg.lister = false ∧ DroppedExpired tr cr.id) ∨ s.Safe cr

theorem State.Kept.step {tr : List Ev} {cr : Credential} (hsp : cfg.statePath)
    (h : s.Kept cfg tr cr) (hi : Inv cfg s) (hg : Guard cfg ev s) (hs : apply ev s = some s') :
    s'.Kept cfg (tr ++ [ev]) cr := by
  obtain hf | ⟨hno, t, k, hev⟩ | hsafe := h
  · exact .inl ((effect hs).finished_mono hf)
  · exact .inr (.inl ⟨hno, t, k, List.mem_append_left _ hev⟩)
  · obtain hsafe | hf | ⟨hno, t, k, rfl⟩ := hsafe.step hsp hi hg hs
    · exact .inr (.inr hsafe)
    · exact .inl hf
    · exact .inr (.inl ⟨hno, t, k, by simp⟩)

/-- What is safe, and a row no more, is queued. -/
theorem State.Safe.queued {cr : Credential} (h : s.Safe cr) (hkeyed : Keyed s)
    (hfor : (cr.id, k) ∈ s.ledger.claimedFor) (hsp : cfg.statePath)
    (hno : Upheld cfg n (NotAt k cr.id) s) : (∃ q ∈ s.content.releasing, q.cred = cr) ∧
      (s.phase = .up → ∃ q ∈ s.mem.releasing, q.cred = cr) := by
  constructor
  · obtain ⟨k', c, hc, rfl⟩ | hq := h.1
    · obtain rfl := hkeyed.key hfor (hkeyed.rows.file hc)
      exact absurd rfl (hno.file hsp hc rfl)
    · exact hq
  · intro hup
    obtain ⟨k', c, hc, -, rfl⟩ | hq := Memory.holds_durable.mp (h.2 hup)
    · obtain rfl := hkeyed.key hfor (hkeyed.row hc)
      exact absurd rfl (hno.row hc rfl)
    · exact hq

section Runs

variable {file : File} {tr : List Ev}
  {x y : Interleave.Config State Memory Section Request Reply Tid Op Outcome}

theorem Runs.accounted (h : Runs cfg file tr x) : Ordered x.shared ∧ Accounted x.shared := by
  refine (h.guarded.invariant (sound cfg) (inv_initial cfg file)
    (J := fun s => Numbered s ∧ Ordered s ∧ Accounted s)
    ⟨numbered_initial file, List.Pairwise.nil, ?_⟩
    ?_).2
  · intro k n op id hc
    cases hc
  · rintro ev s s' hi ⟨hnum, hord, hacc⟩ hg hs
    exact ⟨hnum.step hg hs, hord.step hnum hs, hacc.step hi hnum hg hs⟩

theorem Runs.deletesOwn (h : Runs cfg file tr x)
    (hC : (machine cfg).Along DeletesHolder (State.initial file) tr) : DeletesOwn x.shared :=
  h.guarded.invariant_along (sound cfg) (inv_initial cfg file) (deletesOwn_initial file)
    (fun _ _ _ hC hi hj hg hs => hj.step hi hg hs hC) hC

/-- A `CreatePod` that returns nil has bound its Pod, and saved it. -/
theorem Runs.created (h : Runs cfg file tr x)
    (hs : Step (machine cfg) x (.finished (.lifecycle k) (.createPod pod) .ok) y)
    (hid : (x.shared.ledger.progress k).bound = some id) :
    ∃ n b, b.id = id ∧ b.pod = pod ∧
      x.shared.ledger.calls (.lifecycle k) = some (n, .createPod pod) ∧
      BoundNow x.shared k n b ∧ CreatedGuard cfg x.shared k pod id := by
  obtain ⟨⟨-, -, ⟨n, hn⟩, -, -, -, id', hcr⟩, -⟩ := h.next hs
  obtain rfl : id' = id := Option.some.inj (hcr.bound.symm.trans hid)
  obtain ⟨b, hbid, hb⟩ := h.accounted.2 hn hid
  refine ⟨n, b, hbid, ?_, hn, hb, hcr⟩
  obtain ⟨m, hm | hm⟩ := hb.serves <;> rw [hn] at hm <;> cases hm
  rfl

/-! ## From call to call -/

variable {x' y' : Interleave.Config State Memory Section Request Reply Tid Op Outcome}
  {tr' : List Ev}

/-- What a binding whose call returns leaves for every later state. -/
theorem Runs.descent (h : Runs cfg file tr x) (hb : BoundNow x.shared k n b)
    (hcr : CreatedGuard cfg x.shared k pod b.id) (hin : (x.shared.ledger.progress k).inHand = none)
    (hw : x.shared.ledger.writeFailed = false)
    (hrun : Run (machine cfg) x tr' x')
    (hC : (machine cfg).Along DeletesHolder (State.initial file) (tr ++ tr')) :
    Descent cfg b x'.shared ∧ Renewed cfg x.shared.ledger.issuedIds b x'.shared := by
  obtain ⟨hmem, rfl⟩ := State.mem_of_lastBinding hb.last
  have hsaved := fun hsp => hcr.saved hsp hw
  have hup : ∀ {Q : Key → Claim → Prop}, (∀ {c}, c.id = b.id → c.BoundTo b.pod → Q b.key c) →
      (∀ {k' c}, k' ≠ b.key → Q k' c) → Upheld cfg b.instant Q x.shared := fun hQ hother =>
    hb.upheld h.numbered h.projected hsaved hQ hother
  refine ((h.after hrun).invariant_along (sound cfg) h.inv (C := DeletesHolder)
    (J := fun s => Numbered s ∧ DeletesOwn s ∧ Descent cfg b s ∧
      Renewed cfg x.shared.ledger.issuedIds b s)
    ⟨h.numbered, h.deletesOwn hC.left, ⟨?_, hmem, fun hb' hk _ hlt => ?_⟩, ⟨subset_rfl, ?_, ?_⟩⟩ ?_
    (h.guarded.along hC)).2.2
  · exact hup (fun hid hbt => .of_binding hmem le_rfl rfl hid hbt) fun hne hk => absurd hk hne
  · exact absurd (h.accounted.1.le_last hb.last hb' hk) (not_le.mpr hlt)
  · intro res hres
    rw [hin] at hres
    cases hres
  · exact hup (fun hid _ _ => .inl hid) fun hne hk => absurd hk hne
  · rintro ev s s' hdel hi ⟨hnum, hown, hd, hr⟩ hg hs
    exact ⟨hnum.step hg hs, hown.step hi hg hs hdel, hd.step hi hnum hown hg hs, hr.step hg hs⟩

theorem Runs.kept (h : Runs cfg file tr x) (hsp : cfg.statePath) {cr : Credential} {tr₀ : List Ev}
    (hkept : x.shared.Kept cfg tr₀ cr) (hrun : Run (machine cfg) x tr' x') :
    x'.shared.Kept cfg (tr₀ ++ tr') cr :=
  (h.after hrun).induct (sound cfg) h.inv (J := fun tr₁ s => s.Kept cfg (tr₀ ++ tr₁) cr)
    (by rwa [List.append_nil]) fun tr₁ ev s s' hi hj hg hs => by
      rw [← List.append_assoc]
      exact hj.step hsp hi hg hs

/-- A claim whose key is another's is queued from then on, until it is finished. -/
theorem Runs.handed_on (h : Runs cfg file tr x) (hf : file.content.claims = ∅) (hsp : cfg.statePath)
    {cr : Credential} {m : Memory} {tr₀ : List Ev} (hkept : x.shared.Kept cfg tr₀ cr)
    (hm : x.shared.Seen m) (hc : m.claims.lookup k = some c) (hid : c.id = cr.id)
    (hno : Upheld cfg n (NotAt k cr.id) x.shared) (hrun : Run (machine cfg) x tr' x') :
    x'.shared.Finished cr.id ∨ (cfg.lister = false ∧ DroppedExpired (tr₀ ++ tr') cr.id) ∨
      (∃ q ∈ x'.shared.content.releasing, q.cred = cr) ∧
        (x'.shared.phase = .up → ∃ q ∈ x'.shared.mem.releasing, q.cred = cr) := by
  obtain ⟨i, hmi⟩ := hm
  obtain ⟨hmi', hno'⟩ := (h.after hrun).invariant (sound cfg) h.inv
    (J := fun s => s.memAt i = some m ∧ Upheld cfg n (NotAt k cr.id) s) ⟨hmi, hno⟩
    fun ev s s' hi ⟨hmi, hno⟩ hg hs =>
      ⟨(effect hs).memAt hmi, hno.step_notAt hi hg hs ⟨i, hmi⟩ hc hid⟩
  refine (h.kept hsp hkept hrun).imp_right fun hk => hk.imp_right fun hsafe => ?_
  have hkeyed : Keyed x'.shared := Runs.keyed (Run.append h hrun) hf
  refine hsafe.queued hkeyed ?_ hsp hno'
  rw [← hid]
  exact hkeyed.rows.seen (Nat.zero_le _) hmi' hc

/-- The bindings a run adds come after it began. -/
theorem Runs.binding_since (h : Runs cfg file tr x) (hrun : Run (machine cfg) x tr' x')
    (hb : b ∈ x'.shared.ledger.bindings) :
    b ∈ x.shared.ledger.bindings ∨ x.shared.instant < b.instant := by
  refine ((h.after hrun).invariant (sound cfg) h.inv (J := fun s => x.shared.instant ≤ s.instant ∧
    ∀ b ∈ s.ledger.bindings, b ∈ x.shared.ledger.bindings ∨ x.shared.instant < b.instant)
    ⟨le_rfl, fun b hb => .inl hb⟩ ?_).2 b hb
  rintro ev s s' hi ⟨hle, hj⟩ hg hs
  refine ⟨hle.trans (effect hs).instant_le, fun b hb => ?_⟩
  obtain hold | ⟨-, hinst, -⟩ := (effect hs).binding_back hg hb
  · exact hj b hold
  · exact .inr (by omega)

/-- A `CreatePod` that has returned nil stays returned. -/
theorem Runs.stays_returned (h : Runs cfg file tr x) {op : Op}
    (hs : Step (machine cfg) x (.finished (.lifecycle k) (.createPod pod) .ok) y)
    (hc : x.shared.ledger.calls (.lifecycle k) = some (n, op)) (hrun : Run (machine cfg) y tr' x') :
    n ∈ x'.shared.ledger.returned := by
  have ha := (h.next hs).2
  have hy : n ∈ y.shared.ledger.returned := by
    rw [← Option.some.inj ha]
    simp [State.record, Ledger.finish, hc]
  have h' : Runs cfg file (tr ++ [.finished (.lifecycle k) (.createPod pod) .ok]) y := h.snoc hs
  exact (h'.after hrun).invariant (sound cfg) h'.inv (J := fun s => n ∈ s.ledger.returned) hy
    fun _ _ _ _ hj _ hs => (effect hs).returned hj

theorem Runs.write_ok (h : Runs cfg file tr x) (hrun : Run (machine cfg) x tr' x')
    (hw : x'.shared.ledger.writeFailed = false) : x.shared.ledger.writeFailed = false := by
  by_contra hne
  have htrue : x'.shared.ledger.writeFailed = true :=
    (h.after hrun).invariant (sound cfg) h.inv (J := fun s => s.ledger.writeFailed = true)
      (Bool.not_eq_false _ ▸ hne) fun _ _ _ _ hj _ hs => (effect hs).writeFailed hj
  rw [hw] at htrue
  cases htrue

/-- A claim that has just been bound is safe, unless a listing has ended it. -/
theorem CreatedGuard.kept (hcr : CreatedGuard cfg s k pod id) (hi : Inv cfg s) (hd : Durable s) :
    ∃ cr, cr.id = id ∧ s.Kept cfg [] cr := by
  obtain ⟨c, hc, rfl, -⟩ | ⟨-, hmiss, -⟩ := hcr.row
  · have hsnap : (s.mem.snapshot none).Holds c.cred :=
      Memory.holds_durable.mpr (.inl ⟨k, c, hc, (Memory.settled_eq_true.mp hcr.settled).1, rfl⟩)
    exact ⟨c.cred, rfl, .inr (.inr ⟨hd _ hsnap, fun _ => hsnap⟩)⟩
  · exact ⟨⟨id, ""⟩, rfl, .inl (.inr (hi.missed hmiss))⟩

theorem DroppedExpired.of_finished (tr₁ : List Ev) {tr₂ : List Ev} {op : Op} {r : Outcome}
    (h : DroppedExpired (tr₁ ++ .finished t op r :: tr₂) id) : DroppedExpired (tr₁ ++ tr₂) id := by
  obtain ⟨u, k, hev⟩ := h
  exact ⟨u, k, by simpa using hev⟩

/-- No call that has bound `id` at `k` since the instant `n` has returned nil. -/
def State.NoneReturned (s : State) (k : Key) (id : String) (n : ℕ) : Prop :=
  ∀ b ∈ s.ledger.bindings, b.key = k → b.id = id → n < b.instant → b.call ∉ s.ledger.returned

instance : Decidable (s.NoneReturned k id n) :=
  inferInstanceAs (Decidable (∀ b ∈ s.ledger.bindings, b.key = k → b.id = id → n < b.instant → _))

/-- **Sandboxes do not cross owners.**  From an empty table, with every write succeeding and every
delete at a key that holds a claim naming the Pod whose UID the claim records: if `CreatePod` of `P`
returned nil with `id`, and a later `CreatePod` of `P'` at the same key returns nil with the same
`id`, then `P'` is of the line of `P`, as long as none returned nil with `id` in between.  A
`CreatePod` that returns nil with another id has one claimed since, and from then on `id` is queued
until it is finished, unless a provider without a lister dropped it as expired. -/
theorem sandbox_stays_in_line {P P' : Pod} {id' : String} (hf : file.content.claims = ∅)
    (h : Runs cfg file tr x)
    (hP : Step (machine cfg) x (.finished (.lifecycle k) (.createPod P) .ok) y)
    (hid : (x.shared.ledger.progress k).bound = some id) (hrun : Run (machine cfg) y tr' x')
    (hP' : Step (machine cfg) x' (.finished (.lifecycle k) (.createPod P') .ok) y')
    (hid' : (x'.shared.ledger.progress k).bound = some id')
    (hw : x'.shared.ledger.writeFailed = false)
    (hdel : (machine cfg).Along DeletesHolder (State.initial file)
      (tr ++ .finished (.lifecycle k) (.createPod P) .ok :: tr')) :
    (id' = id → x'.shared.NoneReturned k id x.shared.instant →
      ∃ b₀ b', b₀.key = k ∧ b₀.id = id ∧ b₀.pod = P ∧ b'.pod = P' ∧ Line x'.shared b₀ b') ∧
    (id' ≠ id → id' ∉ y.shared.ledger.issuedIds ∧
      (cfg.statePath → ∀ tr'' z, Run (machine cfg) y' tr'' z → z.shared.Finished id ∨
        (cfg.lister = false ∧ DroppedExpired (tr' ++ tr'') id) ∨
        (∃ q ∈ z.shared.content.releasing, q.id = id) ∧
          (z.shared.phase = .up → ∃ q ∈ z.shared.mem.releasing, q.id = id))) := by
  obtain ⟨n, b₀, rfl, rfl, hcall₀, hb₀, hcr⟩ := h.created hP hid
  obtain ⟨⟨-, -, -, hin, -⟩, ha⟩ := h.next hP
  have hrun₀ : Run (machine cfg) x (.finished (.lifecycle k) (.createPod b₀.pod) .ok :: tr') x' :=
    Run.append (.snoc .nil hP) hrun
  have h' : Runs cfg file _ x' := Run.append h hrun₀
  obtain ⟨hdesc, hren⟩ := h.descent hb₀ hcr hin (h.write_ok hrun₀ hw) hrun₀ hdel
  obtain ⟨n', b', rfl, rfl, hcall', hb', hcr'⟩ := h'.created hP' hid'
  obtain ⟨hord, -⟩ := h'.accounted
  have hkey₀ : b₀.key = k := (State.mem_of_lastBinding hb₀.last).2
  obtain ⟨hmem', hkey'⟩ := State.mem_of_lastBinding hb'.last
  have hle : b₀.instant ≤ b'.instant := hord.le_last hb'.last hdesc.mem hkey₀
  constructor
  · intro hsame hnext
    -- the call of `b₀` is over, that of `b'` is not
    have hlt : b₀.instant < b'.instant := by
      refine lt_of_le_of_ne hle fun he => ?_
      obtain rfl := hord.inj hdesc.mem hmem' he
      obtain rfl : n = n' := hb₀.call.symm.trans hb'.call
      exact (h'.numbered.returned (h.stays_returned hP hcall₀ hrun)).2 _ _ hcall'
    refine ⟨b₀, b', hkey₀, rfl, rfl, rfl, hdesc.line hord hmem'
      (hkey'.trans hkey₀.symm) hsame hlt ?_⟩
    intro b hb hk hid hlt' _
    rw [hkey₀] at hk
    obtain hold | hnew := h.binding_since hrun₀ hb
    · exact absurd (h.accounted.1.le_last hb₀.last hold hk) (not_le.mpr hlt')
    · exact hnext b hb hk hid hnew
  · intro hne
    obtain ⟨m, hm, hshows⟩ := h'.numbered.shown hmem'
    obtain ⟨c, hc, hcid, -⟩ := hshows.row
    refine ⟨?_, fun hsp tr'' z hz => ?_⟩
    · obtain hold | hnew := hren.rows.seen hle hm hc (hkey'.trans hkey₀.symm)
      · exact absurd (hcid.symm.trans hold) hne
      · rw [hcid] at hnew
        rw [← Option.some.inj ha]
        exact hnew
    · obtain ⟨cr, hcrid, hkept⟩ := hcr.kept h.inv (h.durable hsp)
      rw [← hcrid] at hne ⊢
      have hno : Upheld cfg b'.instant (NotAt k cr.id) x'.shared :=
        hb'.upheld h'.numbered h'.projected (fun hsp => hcr'.saved hsp hw)
          (fun hid _ _ => by rwa [hid]) fun hne hk => absurd hk hne
      obtain ⟨m₀, hm₀, hshows₀⟩ := h'.numbered.shown hdesc.mem
      obtain ⟨c₀, hc₀, hcid₀, -⟩ := hshows₀.row
      rw [hkey₀] at hc₀
      obtain hfin | ⟨hl, hd⟩ | ⟨⟨q, hq, hqc⟩, hup⟩ := h'.handed_on hf hsp (h.kept hsp hkept hrun₀)
        ⟨_, hm₀⟩ hc₀ (hcid₀.trans hcrid.symm) hno (Run.append (.snoc .nil hP') hz)
      · exact .inl hfin
      · exact .inr (.inl ⟨hl, (hd.of_finished _).of_finished []⟩)
      · refine .inr (.inr ⟨⟨q, hq, congrArg Credential.id hqc⟩, fun hp => ?_⟩)
        obtain ⟨q', hq', hqc'⟩ := hup hp
        exact ⟨q', hq', congrArg Credential.id hqc'⟩

/-! ## An adoption that a crash cuts off -/

/-- The event ends a `CreatePod` with a nil error. -/
def createdOk : Ev → Bool
  | .finished _ (.createPod _) .ok => true
  | _ => false

/-- Every Pod submitted under this UID has this authority. -/
def SubmittedUnder (uid authority : String) (tr : List Ev) : Prop :=
  ∀ ev ∈ tr, ∀ pod ∈ submitted ev, pod.uid = uid → authorityOf pod = authority

instance (uid authority : String) (tr : List Ev) : Decidable (SubmittedUnder uid authority tr) :=
  inferInstanceAs (Decidable (∀ ev ∈ tr, ∀ pod ∈ submitted ev, pod.uid = uid → _))

/-- A Pod of controller `a0` is deleted and its sandbox preserved; the next one of `a0` adopts it,
and the process dies before its `CreatePod` returns; after the restart that Pod has another
controller. -/
theorem exists_cut_off_adoption : ∃ tr x y tr' x' y', Runs fullConfig .absent tr x ∧
    Step (machine fullConfig) x (.finished (.lifecycle "ns/p")
      (.createPod (samplePod "p" "u0" [sampleOwner "a0"])) .ok) y ∧
    Run (machine fullConfig) y tr' x' ∧
    Step (machine fullConfig) x' (.finished (.lifecycle "ns/p")
      (.createPod (samplePod "p" "u1" [sampleOwner "a2"])) .ok) y' ∧
    ((x.shared.ledger.progress "ns/p").bound = some "s1" ∧
      (x'.shared.ledger.progress "ns/p").bound = some "s1") ∧
    x'.shared.ledger.writeFailed = false ∧
    (machine fullConfig).Along DeletesHolder (State.initial .absent)
      (tr ++ .finished (.lifecycle "ns/p")
        (.createPod (samplePod "p" "u0" [sampleOwner "a0"])) .ok :: tr') ∧
    x'.shared.NoneReturned "ns/p" "s1" x.shared.instant ∧
    tr'.all (fun ev => !createdOk ev) = true ∧ SubmittedUnder "u0" "a0" (tr ++ tr') := by
  obtain ⟨tr, x, ev, y, tr', x', ev', y', hrun, hs, hrun', hs', ⟨hev, hev'⟩, hbound, hw, hdel,
    hnext,
    hcreated, hsub⟩ := exists_steps_between fullConfig .absent
    (call .boot .new 10 {} ++
      call (.lifecycle "ns/p") (.createPod (samplePod "p" "u0" [sampleOwner "a0"])) 16
        { claimed := .ok (sampleResult "s1") })
    (.move (.lifecycle "ns/p") (World.reply {}))
    (call (.lifecycle "ns/p") (.deletePod (samplePod "p" "u0" [sampleOwner "a0"])) 11 {} ++
      call (.lifecycle "ns/p") (.createPod (samplePod "p" "u1" [sampleOwner "a0"])) 11 {} ++
      .crash :: call .boot .new 15
        { file := .decoded
            (sampleFile "ns/p" (sampleClaim "s1" (samplePod "p" "u1" [sampleOwner "a0"])))
          listed := .ok [sampleSummary "s1"] } ++
      call (.lifecycle "ns/p") (.createPod (samplePod "p" "u1" [sampleOwner "a2"])) 11 {})
    (.move (.lifecycle "ns/p") (World.reply {}))
    (fun tr s ev tr' s' ev' =>
      (returnedOk ev = some
        (.lifecycle "ns/p", .createPod (samplePod "p" "u0" [sampleOwner "a0"])) ∧
        returnedOk ev' =
          some (.lifecycle "ns/p", .createPod (samplePod "p" "u1" [sampleOwner "a2"]))) ∧
      ((s.ledger.progress "ns/p").bound = some "s1" ∧
        (s'.ledger.progress "ns/p").bound = some "s1") ∧
      s'.ledger.writeFailed = false ∧
      (machine fullConfig).Along DeletesHolder (State.initial .absent) (tr ++ ev :: tr') ∧
      s'.NoneReturned "ns/p" "s1" s.instant ∧
      tr'.all (fun ev => !createdOk ev) = true ∧ SubmittedUnder "u0" "a0" (tr ++ tr'))
    (by decide +kernel)
  obtain rfl := returnedOk_eq_some hev
  obtain rfl := returnedOk_eq_some hev'
  exact ⟨tr, x, y, tr', x', y', hrun, hs, hrun', hs', hbound, hw, hdel, hnext, hcreated, hsub⟩

/-- The Pod that has changed hands meanwhile is of the line of the first one. -/
theorem sandbox_stays_in_line_through_crash : ∃ tr x b₀ b', Runs fullConfig .absent tr x ∧
    b₀.pod = samplePod "p" "u0" [sampleOwner "a0"] ∧
      b'.pod = samplePod "p" "u1" [sampleOwner "a2"] ∧
    Line x.shared b₀ b' := by
  obtain ⟨tr, x, y, tr', x', y', hrun, hs, hrun', hs', ⟨hid, hid'⟩, hw, hdel, hnext, -⟩ :=
    exists_cut_off_adoption
  obtain ⟨b₀, b', -, -, hpod, hpod', hline⟩ :=
    (sandbox_stays_in_line rfl hrun hs hid hrun' hs' hid' hw hdel).1 rfl hnext
  exact ⟨_, x', b₀, b', Run.append hrun (Run.append (Run.nil.snoc hs) hrun'), hpod, hpod', hline⟩

/-- But it has neither its UID nor any authority a Pod of that UID ever had: between the two it was
adopted by a Pod whose own `CreatePod` never returned. -/
theorem cut_off_adoption_crosses_owners : ∃ P P' tr x y tr' x' y',
    Runs fullConfig .absent tr x ∧
    Step (machine fullConfig) x (.finished (.lifecycle "ns/p") (.createPod P) .ok) y ∧
    Run (machine fullConfig) y tr' x' ∧
    Step (machine fullConfig) x' (.finished (.lifecycle "ns/p") (.createPod P') .ok) y' ∧
    (x.shared.ledger.progress "ns/p").bound = some "s1" ∧
    (x'.shared.ledger.progress "ns/p").bound = some "s1" ∧
    x'.shared.ledger.writeFailed = false ∧
    (machine fullConfig).Along DeletesHolder (State.initial .absent)
      (tr ++ .finished (.lifecycle "ns/p") (.createPod P) .ok :: tr') ∧
    (∀ ev ∈ tr', createdOk ev = false) ∧ P'.uid ≠ P.uid ∧ authorityOf P ≠ authorityOf P' ∧
    ∀ ev ∈ tr ++ tr', ∀ pod ∈ submitted ev, pod.uid = P.uid → authorityOf pod ≠ authorityOf P' := by
  obtain ⟨tr, x, y, tr', x', y', hrun, hs, hrun', hs', ⟨hid, hid'⟩, hw, hdel, -, hcreated, hsub⟩ :=
    exists_cut_off_adoption
  refine ⟨_, _, tr, x, y, tr', x', y', hrun, hs, hrun', hs', hid, hid', hw, hdel, fun ev hev => ?_,
    by decide, by decide, fun ev hev pod hpod huid => ?_⟩
  · simpa using List.all_eq_true.mp hcreated ev hev
  · rw [hsub ev hev pod hpod huid]
    decide

end Runs

end VkSandbox
