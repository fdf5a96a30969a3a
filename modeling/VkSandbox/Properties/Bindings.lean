import VkSandbox.Provider.Effects

/-!
# Properties/Bindings — the history of who got which sandbox

Every adoption and every fresh claim leaves a `Binding` in the ledger, with the number of the call
it is part of and the instant from which the tables show it.  `Binds` says how a binding comes
about, and `Numbered` that the history is in order: calls have numbers of their own, a call that
returned is over, and every binding was shown by the version it made.
-/

namespace VkSandbox

open Interleave

variable {cfg : Config} {s s' : State} {t : Tid} {k : Key} {c : Claim} {pod : Pod} {ev : Ev}
  {b : Binding}

/-! ## Calls -/

/-- A call in progress was in progress before, or begins now with the next number. -/
theorem Effect.calls_back (he : Effect ev s s') {n : ℕ} {op : Op}
    (hc : s'.ledger.calls t = some (n, op)) : s.ledger.calls t = some (n, op) ∨
      ev = .started t op ∧ n = s.ledger.count ∧ s.ledger.count < s'.ledger.count := by
  obtain hsame | ⟨op', rfl, -, hnew, hlt⟩ | ⟨hnone, -⟩ := he.calls t
  · exact .inl (hsame ▸ hc)
  · rw [hnew] at hc
    cases hc
    exact .inr ⟨rfl, rfl, hlt⟩
  · rw [hnone] at hc
    cases hc

/-- A call that returns is over. -/
theorem calls_finished {op : Op} {r : Outcome} (hs : apply (.finished t op r) s = some s') :
    s'.ledger.calls t = none := by
  have hfin : (s.ledger.finish t op r).calls t = none := by simp [Ledger.finish]
  cases t with
  | boot => cases hs; cases r <;> exact hfin
  | _ => cases hs; exact hfin

/-- So is every call when the process dies. -/
theorem calls_crashed (hs : apply .crashed s = some s') (t : Tid) : s'.ledger.calls t = none := by
  simp only [apply] at hs
  split at hs
  · cases hs
  · cases hs
    rfl

/-! ## How a binding comes about -/

/-- **The event that makes a binding**: the adoption of a settled row, or the record of a fresh
claim. -/
inductive Binds (ev : Ev) (s : State) (b : Binding) : Prop where
  | adopt {c : Claim} : ev = .locked (.lifecycle b.key) (.adoptExistingClaim b.key b.pod) →
      s.row b.key = some c → s.mem.settled b.key → c.adoptableBy b.pod → c.id = b.id → Binds ev s b
  | insert {res : ClaimResult} {now : Time} :
      ev = .locked (.lifecycle b.key) (.insertClaim b.key b.pod (.ofResult res b.pod now)) →
      (s.ledger.progress b.key).inHand = some res → res.id = b.id → Binds ev s b

/-- The bindings of a section: those there were, and one it made for the call it is part of. -/
theorem SectionGuard.binding_back {a : Section} (hg : SectionGuard cfg s t a)
    (hb : b ∈ s.ledger.bindingsAfter a s) : b ∈ s.ledger.bindings ∨
      Binds (.locked t a) s b ∧ b.instant = s.instant + 1 ∧
        ∃ op, s.ledger.calls (.lifecycle b.key) = some (b.call, op) := by
  have hcall : ∀ {key pod}, s.Serves (.lifecycle key) pod →
      ∃ op, s.ledger.calls (.lifecycle key)
        = some (((s.ledger.calls (.lifecycle key)).map (·.1)).getD 0, op) := by
    rintro key pod ⟨n, hn | hn⟩ <;> rw [hn] <;> exact ⟨_, rfl⟩
  cases a with
  | adoptExistingClaim key pod =>
    obtain ⟨rfl, -, hserves, -⟩ := hg
    simp only [Ledger.bindingsAfter] at hb
    obtain ⟨-, -, he⟩ | ⟨-, -, he⟩ | ⟨c, -, -, -, -, he⟩ | ⟨c, hc, hset, had, -, he⟩ :=
      Memory.adoptExistingClaim_cases key pod s.mem <;> rw [he] at hb
    · exact .inl hb
    · exact .inl hb
    · exact .inl hb
    · rcases List.mem_cons.mp hb with rfl | hb
      · exact .inr ⟨.adopt rfl hc hset had rfl, rfl, hcall hserves⟩
      · exact .inl hb
  | insertClaim key pod c =>
    obtain ⟨rfl, -, hserves, -, res, now, hres, rfl, -⟩ := hg
    rcases List.mem_cons.mp hb with rfl | hb
    · exact .inr ⟨.insert rfl hres rfl, rfl, hcall hserves⟩
    · exact .inl hb
  | _ => exact .inl hb

/-- A binding is an old one, or this event made it. -/
theorem Effect.binding_back (he : Effect ev s s') (hg : Guard cfg ev s)
    (hb : b ∈ s'.ledger.bindings) : b ∈ s.ledger.bindings ∨ Binds ev s b ∧
      b.instant = s.instant + 1 ∧ ∃ op, s.ledger.calls (.lifecycle b.key) = some (b.call, op) := by
  obtain hsame | ⟨t, a, rfl, hnew⟩ := he.bindings
  · exact .inl (hsame ▸ hb)
  · rw [hnew] at hb
    exact hg.2.binding_back hb

/-- The bindings stay. -/
theorem Effect.bindings_mono (he : Effect ev s s') : s.ledger.bindings ⊆ s'.ledger.bindings := by
  obtain hsame | ⟨t, a, rfl, hnew⟩ := he.bindings
  · exact fun _ => by rw [hsame]; exact id
  · intro b hb
    rw [hnew]
    cases a with
    | adoptExistingClaim key pod =>
      simp only [Ledger.bindingsAfter]
      split
      · exact List.mem_cons_of_mem _ hb
      · exact hb
    | insertClaim key pod c => exact List.mem_cons_of_mem _ hb
    | _ => exact hb

/-- An adoption leaves its binding. -/
theorem State.binding_adopted (h : s.mem.adopted k pod = some c) :
    ∃ n, ⟨k, c.id, pod, n, s.instant + 1⟩ ∈
      (s.entered (.adoptExistingClaim k pod)).ledger.bindings := by
  refine ⟨((s.ledger.calls (.lifecycle k)).map (·.1)).getD 0, ?_⟩
  change _ ∈ s.ledger.bindingsAfter (.adoptExistingClaim k pod) s
  simp only [Ledger.bindingsAfter, h]
  exact List.mem_cons_self

/-- What a version shows of a binding. -/
structure Memory.Shows (m : Memory) (b : Binding) : Prop where
  tracked : ∃ p, m.pods.lookup b.key = some p ∧ p.uid = b.pod.uid
  row : ∃ c, m.claims.lookup b.key = some c ∧ c.id = b.id ∧ c.BoundTo b.pod

theorem Binds.shows {a : Section} (h : Binds (.locked t a) s b) : (a.run s.mem).Shows b := by
  cases h with
  | @adopt c he hc hset had hid =>
    cases he
    simp only [Section.run]
    obtain ⟨hn, -⟩ | ⟨hn, -⟩ | ⟨c', hc', -, hn, -⟩ | ⟨c', hc', -, -, he, -⟩ :=
      Memory.adoptExistingClaim_cases b.key b.pod s.mem
    · rw [State.row, hn] at hc
      cases hc
    · rw [hset] at hn
      cases hn
    · obtain rfl : c = c' := Option.some.inj (hc.symm.trans hc')
      rw [had] at hn
      cases hn
    · obtain rfl : c = c' := Option.some.inj (hc.symm.trans hc')
      rw [he]
      exact ⟨⟨b.pod, Finmap.lookup_insert _, rfl⟩,
        ⟨c.rebind b.pod, Finmap.lookup_insert _, hid, rfl, rfl, rfl⟩⟩
  | insert he _ hid =>
    cases he
    exact ⟨⟨_, Finmap.lookup_insert _, rfl⟩, ⟨_, Finmap.lookup_insert _, hid, rfl, rfl, rfl⟩⟩

/-- A binding is shown by the version its event makes. -/
theorem Binds.version (h : Binds ev s b) (hs : apply ev s = some s') :
    ∃ m, s'.memAt (s.instant + 1) = some m ∧ m.Shows b := by
  have hev : ∃ t a, ev = .locked t a := by
    cases h with
    | adopt he => exact ⟨_, _, he⟩
    | insert he => exact ⟨_, _, he⟩
  obtain ⟨t, a, rfl⟩ := hev
  cases hs
  exact ⟨_, (s.entered a).memAt_instant, h.shows⟩

/-! ## The history is in order -/

/-- **Calls and bindings are in order.** -/
structure Numbered (s : State) : Prop where
  calls : ∀ {t n op}, s.ledger.calls t = some (n, op) → n < s.ledger.count
  unique : ∀ {t t' n op op'}, s.ledger.calls t = some (n, op) → s.ledger.calls t' = some (n, op') →
    t = t'
  returned : ∀ {n}, n ∈ s.ledger.returned → n < s.ledger.count ∧
    ∀ t op, s.ledger.calls t ≠ some (n, op)
  bindings : ∀ {b}, b ∈ s.ledger.bindings → b.call < s.ledger.count ∧ b.instant ≤ s.instant ∧
    ∀ t op, s.ledger.calls t = some (b.call, op) → t = .lifecycle b.key
  shown : ∀ {b}, b ∈ s.ledger.bindings → ∃ m, s.memAt b.instant = some m ∧ m.Shows b

theorem Numbered.step (h : Numbered s) (hg : Guard cfg ev s) (hs : apply ev s = some s') :
    Numbered s' where
  calls := fun hc => by
    obtain hc | ⟨-, rfl, hlt⟩ := (effect hs).calls_back hc
    · exact (h.calls hc).trans_le (effect hs).count
    · exact hlt
  unique := fun {t t' n op op'} hc hc' => by
    obtain hc | ⟨hev, rfl, -⟩ := (effect hs).calls_back hc <;>
      obtain hc' | ⟨hev', hn, -⟩ := (effect hs).calls_back hc'
    · exact h.unique hc hc'
    · exact absurd (h.calls hc) (by omega)
    · exact absurd (h.calls hc') (by omega)
    · rw [hev] at hev'
      cases hev'
      rfl
  returned := fun {n} hn => by
    obtain hn | ⟨t, op, op', rfl, hc⟩ := (effect hs).returned_new hn
    · obtain ⟨hlt, hnone⟩ := h.returned hn
      refine ⟨hlt.trans_le (effect hs).count, fun t op hc => ?_⟩
      obtain hc | ⟨-, rfl, -⟩ := (effect hs).calls_back hc
      · exact hnone t op hc
      · exact absurd hlt (lt_irrefl _)
    · refine ⟨(h.calls hc).trans_le (effect hs).count, fun t' op₁ hc' => ?_⟩
      obtain hc₁ | ⟨hev, -⟩ := (effect hs).calls_back hc'
      · obtain rfl := h.unique hc hc₁
        rw [calls_finished hs] at hc'
        cases hc'
      · cases hev
  bindings := fun {b} hb => by
    have hle := (effect hs).instant_le
    obtain hb | ⟨hbinds, hinst, op, hc⟩ := (effect hs).binding_back hg hb
    · obtain ⟨hlt, hi, hthread⟩ := h.bindings hb
      refine ⟨hlt.trans_le (effect hs).count, hi.trans hle, fun t op hc => ?_⟩
      obtain hc | ⟨-, hn, -⟩ := (effect hs).calls_back hc
      · exact hthread t op hc
      · exact absurd hlt (by omega)
    · obtain ⟨m, hm, -⟩ := hbinds.version hs
      refine ⟨(h.calls hc).trans_le (effect hs).count, ?_, fun t op' hc' => ?_⟩
      · rw [hinst]
        exact State.memAt_le hm
      · obtain hc' | ⟨-, hn, -⟩ := (effect hs).calls_back hc'
        · exact h.unique hc' hc
        · exact absurd (h.calls hc) (by omega)
  shown := fun {b} hb => by
    obtain hb | ⟨hbinds, hinst, -⟩ := (effect hs).binding_back hg hb
    · obtain ⟨m, hm, hshow⟩ := h.shown hb
      exact ⟨m, (effect hs).memAt hm, hshow⟩
    · rw [hinst]
      exact hbinds.version hs

theorem numbered_initial (file : File) : Numbered (State.initial file) where
  calls := fun hc => by cases hc
  unique := fun hc => by cases hc
  returned := fun hn => absurd hn (Finset.notMem_empty _)
  bindings := fun hb => by cases hb
  shown := fun hb => by cases hb

theorem Runs.numbered {file : File} {tr : List Ev}
    {x : Interleave.Config State Memory Section Request Reply Tid Op Outcome}
    (h : Runs cfg file tr x) : Numbered x.shared :=
  h.guarded.invariant (sound cfg) (inv_initial cfg file) (numbered_initial file)
    fun _ _ _ _ hj hg hs => hj.step hg hs

end VkSandbox
