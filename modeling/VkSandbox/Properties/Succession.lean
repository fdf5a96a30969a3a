import VkSandbox.Properties.Versions
import VkSandbox.Properties.Bindings

/-!
# Properties/Succession — who comes after whom at one key

    versions   … s … s   ∅   s'(tentative) … s' │ s' (committed) …    crash   s' …
                                                 └─ from here on `s` never comes back

A key is handed on when its row has another sandbox than before.  While the new claim is tentative
the file may still name the old one, so a crash undoes the handover; once it is not, neither tables
nor file nor any save in progress can bring the old one back (`Handed`).
-/

namespace VkSandbox

open Interleave

variable {cfg : Config} {s s' : State} {t : Tid} {a : Section} {k : Key} {c c' : Claim} {ev : Ev}
  {id : String} {n : ℕ} {b : Binding}

/-! ## Who holds the save lock -/

/-- Whoever holds the save lock is running. -/
def SaverLive (s : State) : Prop := ∀ {t}, s.saveMu = some t → s.Live t

/-- While `New` runs nobody else holds it. -/
theorem SaverLive.boot (h : SaverLive s) (hp : s.phase = .booting) (ht : s.saveMu = some t) :
    t = .boot := by
  have hlive := h ht
  cases t with
  | boot => rfl
  | _ => exact absurd (hp.symm.trans hlive) (by decide)

theorem SaverLive.step (h : SaverLive s) (hg : Guard cfg ev s) (hs : apply ev s = some s') :
    SaverLive s' := by
  intro t ht
  have hcrash : ev ≠ .crashed := by
    rintro rfl
    simp only [apply] at hs
    split at hs
    · cases hs
    · cases hs
      cases ht
  obtain ⟨hm, -⟩ | ⟨u, rfl, -, hm, -⟩ | ⟨u, -, -, hm⟩ | rfl := (effect hs).saveMu
  · rw [hm] at ht
    have hlive := h ht
    -- nobody holds it across the end of `New`
    have hboot : ∀ op r, ev ≠ .finished .boot op r := by
      rintro op r rfl
      obtain rfl := h.boot hg.1 ht
      exact hg.2.1 ht
    obtain hp | ⟨-, hd, -⟩ | ⟨op, rfl, -⟩ | ⟨hend, -⟩ := (effect hs).phase
    · cases t <;> exact hp.trans hlive
    · cases t <;> exact absurd (hd.symm.trans hlive) (by decide)
    · exact absurd rfl (hboot op .ok)
    · cases ev with
      | crashed => exact absurd rfl hcrash
      | finished u op r =>
        cases u with
        | boot => exact absurd rfl (hboot op r)
        | _ => cases hend
      | _ => cases hend
  · obtain rfl : u = t := Option.some.inj (hm.symm.trans ht)
    have hans : Answered .lockSave s s' := answered (t := u) (r := ()) hs
    have hlive := hg.1
    cases u <;> exact hans.phase.trans hlive
  · rw [hm] at ht
    cases ht
  · exact absurd rfl hcrash

/-! ## A tentative claim -/

/-- `k` is `id` since the instant `n` and was not before, and the file says so only if it was
written since. -/
structure Since (s : State) (k : Key) (id : String) (n : ℕ) : Prop where
  le : n ≤ s.instant
  held : ∀ {i m}, n ≤ i → s.memAt i = some m → ∃ c, m.claims.lookup k = some c ∧ c.id = id
  before : ∀ {i m c}, i < n → s.memAt i = some m → m.claims.lookup k = some c → c.id ≠ id
  file : ∀ {c}, s.content.claims.lookup k = some c → c.id = id →
    ∃ i, s.disk.instant = some i ∧ n ≤ i

/-- It goes on while `k` is `id`. -/
theorem Since.step (h : Since s k id n) (hg : Guard cfg ev s) (hs : apply ev s = some s')
    (hrow : ∃ c, s'.row k = some c ∧ c.id = id) : Since s' k id n where
  le := h.le.trans (effect hs).instant_le
  held := fun hle hm => by
    obtain hm | ⟨-, rfl⟩ := (effect hs).memAt_cases hm
    · exact h.held hle hm
    · exact hrow
  before := fun hlt hm hc => by
    obtain hm | ⟨rfl, -⟩ := (effect hs).memAt_cases hm
    · exact h.before hlt hm hc
    · exact absurd (hlt.trans_le h.le) (by omega)
  file := fun {c} hc hid => by
    obtain ⟨hf, hi, -⟩ | ⟨t, u, d, rfl, hd, hf, hi, -⟩ := (effect hs).file
    · rw [State.content, hf] at hc
      obtain ⟨i, hi', hle⟩ := h.file hc hid
      exact ⟨i, hi.trans hi', hle⟩
    · obtain ⟨-, -, d', hren⟩ := hg.2
      obtain rfl : d' = d := Option.some.inj (hren.tmp.symm.trans hd)
      rw [State.content, hf] at hc
      obtain ⟨m, c₀, hm, h₀, rfl⟩ := hren.row hc
      refine ⟨d'.instant, hi, ?_⟩
      by_contra hlt
      exact h.before (not_le.mp hlt) hm h₀ hid

/-- A fresh claim is at its key since the section that records it. -/
theorem Since.recorded {pod : Pod} (hi : Inv cfg s)
    (hg : SectionGuard cfg s t (.insertClaim k pod c)) :
    Since (s.entered (.insertClaim k pod c)) k c.id (s.instant + 1) := by
  obtain ⟨-, -, -, -, res, now, hres, rfl, -⟩ := hg
  obtain ⟨-, -, -, hfiled, hunseen⟩ := hi.hand hres
  have hcases : ∀ {i m}, (s.entered (.insertClaim k pod (.ofResult res pod now))).memAt i = some m →
      s.memAt i = some m ∨ i = s.instant + 1 ∧
        m = (s.entered (.insertClaim k pod (.ofResult res pod now))).mem := fun hm =>
    (effect (show apply (.locked t (.insertClaim k pod (.ofResult res pod now))) s = _
      from rfl)).memAt_cases
      hm
  refine ⟨le_rfl, fun {i m} hle hm => ?_, fun {i m c} hlt hm hc => ?_, fun {c} hc hid => ?_⟩
  · obtain hm | ⟨-, rfl⟩ := hcases hm
    · exact absurd (State.memAt_le hm) (by omega)
    · exact ⟨_, Finmap.lookup_insert _, rfl⟩
  · obtain hm | ⟨rfl, -⟩ := hcases hm
    · exact hunseen.2 ⟨i, hm⟩ (Memory.holds_row hc)
    · exact absurd hlt (lt_irrefl _)
  · refine absurd (hi.filed (StateFile.mem_ids.mpr ⟨c.cred, .inl ⟨k, c, hc, rfl⟩, rfl⟩)) ?_
    change c.id ∉ s.ledger.filed
    rw [hid]
    exact hfiled

/-- Every tentative claim is at its key since it was recorded. -/
def Underway (s : State) : Prop :=
  ∀ {k c}, k ∈ s.mem.tentative → s.row k = some c → ∃ n, Since s k c.id n

theorem Underway.step (h : Underway s) (hi : Inv cfg s) (hg : Guard cfg ev s)
    (hs : apply ev s = some s') : Underway s' := by
  intro k c ht hc
  obtain ⟨hm, -⟩ | ⟨t, a, rfl, -, -⟩ | ⟨-, hm, -⟩ := (effect hs).tables
  · rw [hm] at ht
    rw [State.row, hm] at hc
    obtain ⟨n, hn⟩ := h ht hc
    exact ⟨n, hn.step hg hs ⟨c, by rw [State.row, hm]; exact hc, rfl⟩⟩
  · obtain ⟨c₀, h₀, hedit⟩ | hcr := Section.row_edit (a := a) (m := s.mem) (by cases hs; exact hc)
    · obtain ht₀ | ⟨pod, c₁, rfl⟩ :=
        Section.tentative_back (a := a) (m := s.mem) (by cases hs; exact ht)
      · obtain ⟨n, hn⟩ := h ht₀ h₀
        rw [hedit.same.id]
        exact ⟨n, hn.step hg hs ⟨c, hc, hedit.same.id⟩⟩
      · have hnone : s.row k = none := hg.2.2.2.2.1
        rw [State.row, h₀] at hnone
        cases hnone
    · cases a with
      | load st now =>
        cases hs
        rw [show (s.entered (.load st now)).mem.tentative = s.mem.tentative from rfl,
          hg.2.2.1] at ht
        exact absurd ht (Finset.notMem_empty k)
      | insertClaim key pod c₁ =>
        obtain ⟨rfl, rfl⟩ := hcr
        cases hs
        exact ⟨_, .recorded hi hg.2⟩
      | _ => exact hcr.elim
  · rw [hm] at ht
    exact absurd ht (Finset.notMem_empty k)

/-! ## Handing on -/

/-- Not the sandbox `id` at the key `k`. -/
def NotAt (k : Key) (id : String) : Key → Claim → Prop := fun k' c => k' = k → c.id ≠ id

/-- An id some version has had is recorded at no key again. -/
theorem Upheld.step_notAt (h : Upheld cfg n (NotAt k id) s) (hi : Inv cfg s) (hg : Guard cfg ev s)
    (hs : apply ev s = some s') {m : Memory} (hm : s.Seen m) (hc : m.claims.lookup k = some c)
    (hid : c.id = id) : Upheld cfg n (NotAt k id) s' := by
  refine h.step (fun hq => hq) hg hs ⟨fun _ _ hedit hq hk => ?_, fun _ hq => ?_, ?_⟩
  · rw [hedit.same.id]
    exact hq hk
  · split
    · exact hq
    · exact hq
  · rintro t k' pod c' rfl rfl
    obtain ⟨-, -, -, -, res, now, hres, rfl, -⟩ := hg.2
    obtain ⟨-, -, -, -, hunseen⟩ := hi.hand hres
    exact fun he => hunseen.2 hm (Memory.holds_row hc) (hid.trans he.symm)

/-- **Once a key is handed on for good the old sandbox does not come back.** -/
def Handed (cfg : Config) (s : State) : Prop :=
  ∀ {k i j m m' c c'}, i < j → s.memAt i = some m → m.claims.lookup k = some c →
    s.memAt j = some m' → m'.claims.lookup k = some c' → k ∉ m'.tentative → c'.id ≠ c.id →
    ∃ n ≤ j, Upheld cfg n (NotAt k c.id) s

/-- A committed claim has replaced what was at its key. -/
theorem Since.upheld (h : Since s k id n) (hfile : cfg.statePath → ∃ c, s.content.claims.lookup k =
    some c ∧ c.id = id) {id' : String} (hne : id ≠ id') : Upheld cfg n (NotAt k id') s where
  seen := fun hle hm hc => by
    rintro rfl
    obtain ⟨c, hc', rfl⟩ := h.held hle hm
    obtain rfl := Option.some.inj (hc.symm.trans hc')
    exact hne
  le := h.le
  file := fun hp {k' c} hc => by
    rintro rfl
    obtain ⟨c', hc', rfl⟩ := hfile hp
    obtain rfl := Option.some.inj (hc.symm.trans hc')
    exact hne
  caught := fun hp => by
    obtain ⟨c, hc, hid⟩ := hfile hp
    exact .inl (h.file hc hid)

/-- So has a claim `New` has just loaded. -/
theorem upheld_load {st : StateFile} {now : Time} (hlive : SaverLive s)
    (hg : Guard cfg (.locked t (.load st now)) s)
    (hc : (s.entered (.load st now)).row k = some c) (hne : c.id ≠ id) :
    Upheld cfg (s.instant + 1) (NotAt k id) (s.entered (.load st now)) := by
  obtain ⟨hphase, rfl, -, hfile, -, -, -, hfree, -⟩ := hg
  have hmem : ∀ {i m}, (s.entered (.load st now)).memAt i = some m → s.memAt i = some m ∨
      i = s.instant + 1 ∧ m = (s.entered (.load st now)).mem := fun hm =>
    (effect (show apply (.locked .boot (.load st now)) s = _ from rfl)).memAt_cases hm
  refine ⟨fun {i m k' c'} hle hm hc' => ?_, le_rfl, fun _ {k' c'} hc' => ?_,
    fun _ => .inr fun hsome => ?_⟩
  · rintro rfl
    obtain hm | ⟨-, rfl⟩ := hmem hm
    · exact absurd (State.memAt_le hm) (by omega)
    · obtain rfl := Option.some.inj (hc.symm.trans hc')
      exact hne
  · rintro rfl
    have hst : st.claims.lookup k' = some c' := by
      rw [State.content, show (s.entered (.load st now)).disk.file = .table st from hfile] at hc'
      exact hc'
    obtain ⟨c₀, at₀, h₀, rfl⟩ := Memory.row_load (m := s.mem) hc
    obtain rfl := Option.some.inj (h₀.symm.trans hst)
    exact hne
  · obtain ⟨u, hu⟩ := Option.isSome_iff_exists.mp hsome
    obtain rfl := hlive.boot hphase hu
    exact absurd hu hfree

theorem Handed.step (h : Handed cfg s) (hi : Inv cfg s) (hlive : SaverLive s) (hunder : Underway s)
    (hg : Guard cfg ev s) (hs : apply ev s = some s') : Handed cfg s' := by
  intro k i j m m' c c' hlt hmi hc hmj hc' ht hne
  obtain hm | ⟨rfl, -⟩ := (effect hs).memAt_cases hmi
  swap
  · -- the older version cannot be the new one
    obtain hm' | ⟨rfl, -⟩ := (effect hs).memAt_cases hmj
    · exact absurd (State.memAt_le hm') (by omega)
    · exact absurd hlt (lt_irrefl _)
  have hkeep : ∀ {n}, Upheld cfg n (NotAt k c.id) s → Upheld cfg n (NotAt k c.id) s' := fun hu =>
    hu.step_notAt hi hg hs ⟨i, hm⟩ hc rfl
  clear hmi
  obtain hm' | ⟨rfl, rfl⟩ := (effect hs).memAt_cases hmj
  · obtain ⟨n, hle, hu⟩ := h hlt hm hc hm' hc' ht hne
    exact ⟨n, hle, hkeep hu⟩
  obtain ⟨hm', hp⟩ | ⟨t, a, rfl, -, -⟩ | ⟨-, hm', -⟩ := (effect hs).tables
  · have hle := State.memAt_le hmj
    rw [State.instant, State.instant, hp] at hle
    omega
  · cases hs
    obtain ⟨c₀, h₀, hedit⟩ | hcr := Section.row_edit (a := a) (m := s.mem) hc'
    · rw [hedit.same.id] at hne
      have hlt' : i < s.instant := by
        refine lt_of_le_of_ne (Nat.lt_succ_iff.mp hlt) ?_
        rintro rfl
        obtain rfl := Option.some.inj (hm.symm.trans s.memAt_instant)
        obtain rfl := Option.some.inj (hc.symm.trans h₀)
        exact hne rfl
      by_cases ht₀ : k ∈ s.mem.tentative
      · -- it has just been committed
        obtain htent | ⟨id, rfl⟩ | rfl := Section.tentative_forward (a := a) ht₀
        · exact absurd htent ht
        · obtain ⟨h₁, hne'⟩ := Memory.row_withdrawClaim.mp hc'
          exact absurd (hg.2.2.2.1 c' h₁) (hne' rfl)
        · obtain ⟨-, -, -, -, c₁, h₁, -, hfile, -⟩ := hg
          obtain rfl : c₁ = c₀ := Option.some.inj (h₁.symm.trans h₀)
          obtain ⟨n, hn⟩ := hunder ht₀ h₀
          exact ⟨n, hn.le.trans (Nat.le_succ _),
            hkeep (hn.upheld (fun hp => ⟨_, hfile hp, rfl⟩) hne)⟩
      · obtain ⟨n, hle, hu⟩ := h hlt' hm hc s.memAt_instant h₀ ht₀ hne
        exact ⟨n, hle.trans (Nat.le_succ _), hkeep hu⟩
    · cases a with
      | load st now => exact ⟨s.instant + 1, le_rfl, upheld_load hlive hg hc' hne⟩
      | insertClaim key pod c₁ =>
        obtain ⟨rfl, rfl⟩ := hcr
        exact absurd (Finset.mem_insert_self _ _) ht
      | _ => exact hcr.elim
  · rw [hm'] at hc'
    simp at hc'

/-! ## Bindings that are settled, and bindings that are new -/

/-- **A binding is of a settled claim, or of a sandbox nobody had before.** -/
def Grounded (s : State) : Prop :=
  ∀ {b}, b ∈ s.ledger.bindings →
    (∃ m c, s.memAt b.instant = some m ∧ m.claimFor b.key = some c ∧ c.id = b.id) ∨
    ∀ {i m k c}, i < b.instant → s.memAt i = some m → m.claims.lookup k = some c → c.id ≠ b.id

/-- An adopted claim stays settled. -/
theorem Memory.claimFor_adopted {m : Memory} {pod : Pod} (hc : m.claims.lookup k = some c)
    (hs : m.settled k) (had : c.adoptableBy pod) :
    (m.adoptExistingClaim k pod).claimFor k = some (c.rebind pod) := by
  obtain ⟨hn, -⟩ | ⟨hn, -⟩ | ⟨c', hc', -, hn, -⟩ | ⟨c', hc', -, -, he, -⟩ :=
    Memory.adoptExistingClaim_cases k pod m
  · rw [hc] at hn
    cases hn
  · rw [hs] at hn
    cases hn
  · obtain rfl : c = c' := Option.some.inj (hc.symm.trans hc')
    rw [had] at hn
    cases hn
  · obtain rfl : c = c' := Option.some.inj (hc.symm.trans hc')
    rw [he]
    exact Memory.claimFor_eq_some.mpr ⟨hs, Finmap.lookup_insert _⟩

theorem Grounded.step (h : Grounded s) (hi : Inv cfg s) (hnum : Numbered s) (hg : Guard cfg ev s)
    (hs : apply ev s = some s') : Grounded s' := by
  intro b hb
  obtain hold | ⟨hbinds, hinst, -⟩ := (effect hs).binding_back hg hb
  · obtain ⟨m, c, hm, hc, hid⟩ | hnew := h hold
    · exact .inl ⟨m, c, (effect hs).memAt hm, hc, hid⟩
    · refine .inr fun hlt hm hc => ?_
      obtain hm | ⟨rfl, -⟩ := (effect hs).memAt_cases hm
      · exact hnew hlt hm hc
      · exact absurd (hlt.trans_le (hnum.bindings hold).2.1) (by omega)
  · rw [hinst]
    cases hbinds with
    | adopt he hc hset had hid =>
      subst he
      cases hs
      exact .inl ⟨_, _, (s.entered _).memAt_instant, Memory.claimFor_adopted hc hset had, hid⟩
    | insert he hres hid =>
      refine .inr fun hlt hm hc hid' => ?_
      obtain hm | ⟨rfl, -⟩ := (effect hs).memAt_cases hm
      · exact (hi.hand hres).2.2.2.2.2 ⟨_, hm⟩ (Memory.holds_row hc) (hid'.trans hid.symm)
      · exact absurd hlt (lt_irrefl _)

section Runs

variable {file : File} {tr : List Ev}
  {x : Interleave.Config State Memory Section Request Reply Tid Op Outcome}

theorem Runs.handed (h : Runs cfg file tr x) : Handed cfg x.shared := by
  refine (h.guarded.invariant (sound cfg) (inv_initial cfg file)
    (J := fun s => SaverLive s ∧ Underway s ∧ Handed cfg s) ⟨?_, ?_, ?_⟩ ?_).2.2
  · intro t ht
    cases ht
  · intro k c ht
    cases ht
  · intro k i j m m' c c' hlt hm hc
    obtain rfl : m = {} := by
      cases i with
      | zero => exact (Option.some.inj hm).symm
      | succ i => cases hm
    simp at hc
  · rintro ev s s' hi ⟨hlive, hunder, hj⟩ hg hs
    exact ⟨hlive.step hg hs, hunder.step hi hg hs, hj.step hi hlive hunder hg hs⟩

theorem Runs.grounded (h : Runs cfg file tr x) : Grounded x.shared := by
  refine (h.guarded.invariant (sound cfg) (inv_initial cfg file)
    (J := fun s => Numbered s ∧ Grounded s) ⟨numbered_initial file, fun hb => by cases hb⟩ ?_).2
  rintro ev s s' hi ⟨hnum, hj⟩ hg hs
  exact ⟨hnum.step hg hs, hj.step hi hnum hg hs⟩

end Runs

end VkSandbox
