import VkSandbox.Provider.Entries
import VkSandbox.Properties.Scenario

/-!
# Properties/Markers — tentative and quarantined stay attached to rows

Two sets of keys say what is not yet settled:

    tentative      the row is this process's own claim, and may not be on disk
    quarantined    the row was loaded, and no listing has judged it yet

Both are sets of keys of rows, and disjoint (`Inv` has this: the one kind of row carries an id that
was loaded, the other does not).  What takes an argument is that quarantine is **all or nothing**: a
verification judges by a snapshot of every quarantined row, and a quarantined row keeps its id, so
the first `settle` that goes through empties the set (`Runs.quarantine_whole`).  A loaded row that
is not quarantined therefore means that none is.
-/

namespace VkSandbox

open Interleave Interleave.Prog

variable {cfg : Config} {file : File} {tr tr' : List Ev} {ev : Ev} {t : Tid}
  {x y : Interleave.Config State Memory Section Request Reply Tid Op Outcome}

/-! ## Quarantine is all or nothing -/

/-- No row is quarantined, or every loaded one is. -/
def State.QuarantineWhole (s : State) : Prop :=
  s.mem.quarantined = ∅ ∨
    ∀ k c, s.row k = some c → c.id ∈ s.ledger.loaded → k ∈ s.mem.quarantined

/-- The section in which `New` puts what it loaded in quarantine. -/
def Quarantines (ev : Ev) : Prop := ev = .locked .boot .quarantineLoadedClaims

/-- **One event**: only `New` puts a key in quarantine. -/
theorem quarantined_step {s s' : State} {k : Key} (hg : Guard cfg ev s) (ha : apply ev s = some s')
    (hq : k ∈ s'.mem.quarantined) (hno : ¬ Quarantines ev) : k ∈ s.mem.quarantined := by
  obtain ⟨hm, -⟩ | ⟨t, a, rfl, hm, -⟩ | ⟨-, hm, -⟩ := (effect ha).tables
  · rwa [← hm]
  · rw [hm] at hq
    obtain ⟨rfl, -⟩ | ⟨hq, -⟩ := Section.quarantined_back hq
    · obtain ⟨-, rfl, -⟩ := hg
      exact absurd rfl hno
    · exact hq
  · rw [hm] at hq
    simp at hq

/-- While a key is in quarantine, no other table is loaded. -/
theorem loaded_step {s s' : State} {k : Key} (hi : Inv cfg s) (hg : Guard cfg ev s)
    (ha : apply ev s = some s') (hq : k ∈ s.mem.quarantined) :
    s'.ledger.loaded = s.ledger.loaded := by
  have hne : s.mem ≠ {} := by
    intro hm
    rw [hm] at hq
    simp at hq
  obtain hl | rfl | ⟨t, r, rfl⟩ := (effect ha).loaded
  · exact hl
  · obtain ⟨-, -, hdown, -⟩ | ⟨hb, -⟩ := apply_started ha
    · exact absurd (hi.down hdown) hne
    · exact absurd rfl hb
  · exact absurd hg.2.2 hne

/-- What a write-locked section leaves of the tables. -/
theorem mem_locked {a : Section} (hs : Step (machine cfg) x (.locked t a) y) :
    y.shared.mem = a.run x.shared.mem := by
  have ha : apply (.locked t a) x.shared = some y.shared := Step.apply hs
  rw [← Option.some.inj ha]
  rfl

/-- A `settle` empties the quarantine. -/
theorem Runs.settle_empties (h : Runs cfg file tr x) {before : Table Key String}
    {live : Table String Time} (hs : Step (machine cfg) x (.locked t (.settle before live)) y) :
    y.shared.mem.quarantined = ∅ := by
  refine Finset.eq_empty_of_forall_notMem fun k hk => ?_
  rw [mem_locked hs] at hk
  obtain ⟨hk, hj⟩ := Finset.mem_filter.mp hk
  obtain ⟨c, hc, -⟩ := h.inv.quarantined hk
  have hc' : x.shared.mem.claims.lookup k = some c := hc
  simp [Memory.judged, hc', h.settle_covers hs hk hc] at hj

/-- A section that leaves some key in quarantine leaves every loaded row there. -/
theorem quarantined_section {s : State} {a : Section} {k k₀ : Key} {c : Claim} (hi : Inv cfg s)
    (hwhole : ∀ k c, s.row k = some c → c.id ∈ s.ledger.loaded → k ∈ s.mem.quarantined)
    (hg : SectionGuard cfg s t a) (hsettle : ∀ before live, a ≠ .settle before live)
    (hq₀ : k₀ ∈ s.mem.quarantined) (hc : (a.run s.mem).claims.lookup k = some c)
    (hl : c.id ∈ s.ledger.loaded) : k ∈ (a.run s.mem).quarantined := by
  obtain ⟨c₀, hc₀, hsame⟩ | hcr := Section.row_back hc
  · obtain hq | ⟨before, live, rfl, -⟩ | ⟨id, rfl⟩ :=
      Section.quarantined_forward (a := a) (hwhole k c₀ hc₀ (hsame.id ▸ hl))
    · exact hq
    · exact absurd rfl (hsettle before live)
    · -- the withdrawal takes the row with the marker
      obtain ⟨hc', hne⟩ := Memory.row_withdrawClaim.mp hc
      exact absurd (hg.2.2.1 c hc') (hne rfl)
  · cases a with
    | load st now =>
      rw [hg.2.1] at hq₀
      simp at hq₀
    | insertClaim key pod c₀ =>
      obtain ⟨rfl, rfl⟩ := hcr
      obtain ⟨-, -, -, -, res, now, hres, rfl, -⟩ := hg
      exact absurd hl (hi.hand hres).2.2.2.2.1
    | _ => exact hcr.elim

/-- **Quarantine is all or nothing.** -/
theorem Runs.quarantine_whole (h : Runs cfg file tr x) : x.shared.QuarantineWhole := by
  induction h with
  | nil => exact .inl rfl
  | @snoc tr x ev y h hs ih =>
    have hrun : Runs cfg file tr x := h
    obtain ⟨hg, ha⟩ := hrun.next hs
    rcases Finset.eq_empty_or_nonempty y.shared.mem.quarantined with he | ⟨k₀, hk₀⟩
    · exact .inl he
    refine .inr fun k c hc hl => ?_
    by_cases hnew : Quarantines ev
    · subst hnew
      rw [State.row, mem_locked hs] at hc
      rw [mem_locked hs]
      exact Finset.mem_union_right _ (Finmap.mem_keys.mpr (Finmap.mem_of_lookup_eq_some hc))
    have hq₀ := quarantined_step hg ha hk₀ hnew
    have hwhole := ih.resolve_left (Finset.ne_empty_of_mem hq₀)
    rw [loaded_step hrun.inv hg ha hq₀] at hl
    obtain ⟨hm, -⟩ | ⟨t, a, rfl, hm, -⟩ | ⟨-, hm, -⟩ := (effect ha).tables
    · rw [State.row, hm] at hc
      rw [hm]
      exact hwhole k c hc hl
    · rw [State.row, hm] at hc
      rw [hm] at hk₀ ⊢
      refine quarantined_section hrun.inv hwhole hg.2 (fun before live he => ?_) hq₀ hc hl
      subst he
      have hempty := hrun.settle_empties hs
      rw [mem_locked hs] at hempty
      rw [hempty] at hk₀
      simp at hk₀
    · rw [hm] at hk₀
      simp at hk₀

/-! ## The rest of a process -/

/-- **What is left of a process** after `New` has quarantined what it loaded: nothing in `tr` ends
the process or begins one.  Once a process is up, that is all of it. -/
structure RestOfProcess (x : Interleave.Config State Memory Section Request Reply Tid Op Outcome)
    (tr : List Ev) : Prop where
  alive : ∀ ev ∈ tr, EndsProcess ev = false
  judged : x.shared.phase = .up ∨ ∀ ev ∈ tr, ¬ Quarantines ev

/-- Once up, `New` is over. -/
theorem not_quarantines_of_up (h : Runs cfg file tr x) (h' : Run (machine cfg) x tr' y)
    (hup : x.shared.phase = .up) (hno : ∀ ev ∈ tr', ev ≠ .crashed) :
    ∀ ev ∈ tr', ¬ Quarantines ev := by
  rintro ev hev rfl
  obtain ⟨tr₁, tr₂, rfl⟩ := List.append_of_mem hev
  obtain ⟨x₁, x₂, h₁, hs, -⟩ := h'.split
  have hup₁ := (h.evolves h₁ hup fun ev hev => hno ev (List.mem_append_left _ hev)).phase.trans hup
  have hlive : x₁.shared.phase = .booting :=
    (Runs.next (Run.append h h₁ : Runs cfg file (tr ++ tr₁) x₁) hs).1.1
  rw [hup₁] at hlive
  cases hlive

/-- **After `New` quarantine only shrinks**, and what is in it was loaded in this process. -/
theorem quarantined_run (h : Runs cfg file tr x) (h' : Run (machine cfg) x tr' y)
    (hno : ∀ ev ∈ tr', ¬ Quarantines ev) {k : Key} (hq : k ∈ y.shared.mem.quarantined) :
    k ∈ x.shared.mem.quarantined ∧ y.shared.ledger.loaded = x.shared.ledger.loaded := by
  induction h' with
  | nil => exact ⟨hq, rfl⟩
  | @snoc tr₁ x₁ ev x₂ h₁ hs ih =>
    have hrun : Runs cfg file (tr ++ tr₁) x₁ := Run.append h h₁
    obtain ⟨hg, ha⟩ := hrun.next hs
    have hq₁ := quarantined_step hg ha hq (hno ev (by simp))
    obtain ⟨hq₀, hl⟩ := ih (fun ev hev => hno ev (List.mem_append_left _ hev)) hq₁
    exact ⟨hq₀, (loaded_step hrun.inv hg ha hq₁).trans hl⟩

theorem RestOfProcess.not_quarantines (hp : RestOfProcess x tr') (h : Runs cfg file tr x)
    (h' : Run (machine cfg) x tr' y) : ∀ ev ∈ tr', ¬ Quarantines ev := by
  obtain hup | hno := hp.judged
  · refine not_quarantines_of_up h h' hup ?_
    rintro ev hev rfl
    cases hp.alive _ hev
  · exact hno

/-! ## Settled ids -/

/-- The sandbox has a settled row. -/
def State.SettledId (s : State) (id : String) : Prop :=
  ∃ k c, s.row k = some c ∧ c.id = id ∧ s.mem.settled k = true

/-- The sandbox has a row that is not settled. -/
def State.UnsettledId (s : State) (id : String) : Prop :=
  ∃ k c, s.row k = some c ∧ c.id = id ∧ s.mem.settled k = false

/-- **Once settled, always settled.** -/
theorem Runs.settled_stays (h : Runs cfg file tr x) (h' : Run (machine cfg) x tr' y)
    (hno : ∀ ev ∈ tr', ¬ Quarantines ev) {id : String} (hs : x.shared.SettledId id) :
    ¬ y.shared.UnsettledId id := by
  obtain ⟨k, c, hc, rfl, hset⟩ := hs
  rintro ⟨k', c', hc', hid, hun⟩
  have hrun : Runs cfg file (tr ++ tr') y := Run.append h h'
  obtain ⟨hnt, hnq⟩ := Memory.settled_eq_true.mp hset
  obtain ht | hq := Memory.settled_eq_false.mp hun
  · -- the id of a tentative row has only ever been in its own tentative row
    have hseen : y.shared.Seen x.shared.mem := ⟨_, memAt_run h' x.shared.memAt_instant⟩
    obtain ⟨rfl, hx⟩ := (hrun.inv.tentativeOnly ht hc' hseen).1 hc hid.symm
    exact hnt hx
  · obtain ⟨cq, hcq, hload⟩ := hrun.inv.quarantined hq
    obtain rfl : cq = c' := Option.some.inj (hcq.symm.trans hc')
    obtain ⟨hq₀, hl⟩ := quarantined_run h h' hno hq
    have hwhole := h.quarantine_whole.resolve_left (Finset.ne_empty_of_mem hq₀)
    exact hnq (hwhole k c hc (by rwa [← hid, ← hl]))

/-! ## Verifications -/

/-- What a verification that returns true has done last: found nothing in quarantine, or settled
it. -/
def VerifyDone (t : Tid) (l : List Entry) (b : Bool) : Prop :=
  b = true → ∃ l₀ ev s, l = l₀ ++ [(ev, s)] ∧
    (ev = .read t ∧ s.mem.unverified.keys = ∅ ∨ ∃ before live, ev = .locked t (.settle before live))

theorem text_verifyClaims (l : List Entry) :
    Text cfg t (fun _ _ _ => True) (VerifyDone t) (verifyClaimsAgainstNode cfg) l := by
  unfold verifyClaimsAgainstNode
  split
  · exact nofun
  refine Text.look fun s₁ => ⟨trivial, ?_⟩
  split
  · next he => exact fun _ => ⟨l, _, s₁, rfl, .inl ⟨rfl, he⟩⟩
  unfold sandboxes
  refine Text.request fun u s₂ _ _ => ⟨trivial, Text.request fun r s₃ _ _ => ⟨trivial, ?_⟩⟩
  cases r with
  | error err => exact nofun
  | ok listed => exact Text.enter fun s₄ => ⟨trivial, fun _ => ⟨_, _, s₄, rfl, .inr ⟨_, _, rfl⟩⟩⟩

/-- With no unverified row nothing is quarantined. -/
theorem quarantined_eq_empty {s : State} (hi : Inv cfg s) (he : s.mem.unverified.keys = ∅) :
    s.mem.quarantined = ∅ := by
  refine Finset.eq_empty_of_forall_notMem fun k hk => ?_
  obtain ⟨c, hc, -⟩ := hi.quarantined hk
  have hu : s.mem.unverified.lookup k = some c.id := Memory.lookup_unverified.mpr ⟨c, hc, hk, rfl⟩
  have hm : k ∈ s.mem.unverified.keys := Finmap.mem_keys.mpr (Finmap.mem_of_lookup_eq_some hu)
  rw [he] at hm
  simp at hm

/-- **A verification that returns true leaves nothing in quarantine.** -/
theorem Runs.verified (h : Runs cfg file tr x)
    (h' : Executes (machine cfg) t (verifyClaimsAgainstNode cfg) x tr' true y) :
    y.shared.mem.quarantined = ∅ := by
  obtain ⟨l₀, ev, s, hj, hlast⟩ := h'.text (text_verifyClaims []) rfl
  obtain ⟨tr₁, tr₂, rfl, hrep, -, hno, hquiet⟩ := Machine.journal_split h'.run.replay hj
  obtain ⟨x₁, x₂, h₁, hs, h₂⟩ := h'.run.split
  obtain rfl : x₁.shared = s := Option.some.inj (h₁.replay.symm.trans hrep)
  have hrun₁ : Runs cfg file (tr ++ tr₁) x₁ := Run.append h h₁
  have hrun₂ : Runs cfg file (tr ++ tr₁ ++ [ev]) x₂ := Run.snoc hrun₁ hs
  have hempty : x₂.shared.mem.quarantined = ∅ := by
    obtain ⟨rfl, he⟩ | ⟨before, live, rfl⟩ := hlast
    · have ha : apply (.read t) x₁.shared = some x₂.shared := Step.apply hs
      rw [← Option.some.inj ha]
      change x₁.shared.mem.quarantined = ∅
      exact quarantined_eq_empty hrun₁.inv he
    · exact hrun₁.settle_empties hs
  have htid : ev.tid = some t ∧ ev ≠ .crashed := by
    obtain ⟨rfl, -⟩ | ⟨before, live, rfl⟩ := hlast <;> exact ⟨rfl, fun he => by cases he⟩
  have hnone : ∀ ev' ∈ tr₂, ¬ Quarantines ev' := by
    by_cases hb : t = .boot
    · rintro ev' hev rfl
      exact hquiet rfl _ hev (congrArg some hb.symm)
    · have htail : Run (machine cfg) x₁ (ev :: tr₂) y := Run.append (Run.nil.snoc hs) h₂
      have hup : x₁.shared.phase = .up := by
        obtain ⟨hb', -⟩ | ⟨-, hup⟩ :=
          (hrun₁.next hs).1.up_or_booting (hrun₁.next hs).2 htid.1
        · exact absurd hb' hb
        · exact hup
      have hno' : ∀ ev' ∈ ev :: tr₂, ev' ≠ .crashed := by
        intro ev' hev
        rcases List.mem_cons.mp hev with rfl | hev
        · exact htid.2
        · exact not_crashed_of_resets hno ev' hev
      exact fun ev' hev => not_quarantines_of_up hrun₁ htail hup hno' ev'
        (List.mem_cons_of_mem _ hev)
  refine Finset.eq_empty_of_forall_notMem fun k hk => ?_
  have hk₂ := (quarantined_run hrun₂ h₂ hnone hk).1
  rw [hempty] at hk₂
  simp at hk₂

/-- What a tick of the verification loop has looked at last when it stops the loop. -/
theorem follows_verification (cfg : Config) (n : ℕ) :
    Follows cfg (.verification n) (fun _ _ _ _ => True) (fun _ l r => r = .again false →
      ∃ l₀ s, l = l₀ ++ [(.read (.verification n), s)] ∧ s.mem.quarantined = ∅) := by
  intro op s s' h
  obtain ⟨he, -⟩ | hm := mayCall_of_started h
  · cases he
  cases op with
  | claimVerification =>
    refine Machine.Follows.map (Machine.Follows.call (text_verifyClaims _) fun l b _ => ?_)
    split
    · exact nofun
    · refine Text.last_look fun s => ⟨trivial, fun hr => ⟨l, s, rfl, ?_⟩⟩
      simpa using hr
  | _ => simp [mayCall] at hm

/-- **A verification loop that has stopped by itself leaves nothing in quarantine**, then and
later. -/
theorem Runs.verification_stopped (h : Runs cfg file tr x) {n : ℕ}
    {x₁ : Interleave.Config State Memory Section Request Reply Tid Op Outcome}
    (hs : Step (machine cfg) x (.finished (.verification n) .claimVerification (.again false)) x₁)
    (h' : Run (machine cfg) x₁ tr' y) (halive : ∀ ev ∈ tr', EndsProcess ev = false) :
    y.shared.mem.quarantined = ∅ := by
  obtain ⟨l₀, s, hj, hempty⟩ := h.finished (follows_verification cfg n) hs rfl
  have hmem : (.read (.verification n), s) ∈ journal cfg file (.verification n) tr := by
    rw [hj]
    simp
  have hup : s.phase = .up := h.entry_live hmem
  obtain ⟨tr₁, tr₂, x₂, x₃, rfl, h₂, rfl, -, hread, hrest, hno⟩ := h.entry hj
  -- from the look to the end it is one process, and `New` is over
  have htail : Run (machine cfg) x₂
      (.read (.verification n) :: tr₂ ++
        .finished (.verification n) .claimVerification (.again false) :: tr')
      y := Run.append (Run.append (Run.nil.snoc hread) hrest) (Run.append (Run.nil.snoc hs) h')
  have hsame : ∀ ev ∈ .read (.verification n) :: tr₂ ++
      .finished (.verification n) .claimVerification (.again false) :: tr',
      ev ≠ (.crashed : Ev) := by
    refine List.forall_mem_append.mpr ⟨List.forall_mem_cons.mpr ⟨?_, not_crashed_of_resets hno⟩,
      List.forall_mem_cons.mpr ⟨?_, ?_⟩⟩
    · intro he
      cases he
    · intro he
      cases he
    · rintro ev hev rfl
      cases halive _ hev
  refine Finset.eq_empty_of_forall_notMem fun k hk => ?_
  have hk₂ := (quarantined_run h₂ htail (not_quarantines_of_up h₂ htail hup hsame) hk).1
  rw [hempty] at hk₂
  simp at hk₂

/-! ## The result -/

/-- **Marker sets stay attached to rows.**  In every state of every run the two sets are disjoint
sets of keys of rows.  For the rest of the process a sandbox that has a settled row has no unsettled
one, and no key enters quarantine.  A verification that returns true leaves nothing in quarantine,
and once a verification loop has stopped by itself nothing is in quarantine for the rest of the
process. -/
theorem markers_attached (h : Runs cfg file tr x) :
    Disjoint x.shared.mem.tentative x.shared.mem.quarantined ∧
    x.shared.mem.tentative ⊆ x.shared.mem.claims.keys ∧
    x.shared.mem.quarantined ⊆ x.shared.mem.claims.keys ∧
    (∀ tr' y, Run (machine cfg) x tr' y → RestOfProcess x tr' →
      (∀ id, x.shared.SettledId id → ¬ y.shared.UnsettledId id) ∧
      y.shared.mem.quarantined ⊆ x.shared.mem.quarantined) ∧
    (∀ t tr' y, Executes (machine cfg) t (verifyClaimsAgainstNode cfg) x tr' true y →
      y.shared.mem.quarantined = ∅) ∧
    ∀ n x₁ tr' y,
      Step (machine cfg) x (.finished (.verification n) .claimVerification (.again false)) x₁ →
      Run (machine cfg) x₁ tr' y → (∀ ev ∈ tr', EndsProcess ev = false) →
      y.shared.mem.quarantined = ∅ := by
  have hkey : ∀ {k c}, x.shared.row k = some c → k ∈ x.shared.mem.claims.keys := fun hc =>
    Finmap.mem_keys.mpr (Finmap.mem_of_lookup_eq_some hc)
  refine ⟨Finset.disjoint_left.mpr fun k ht hq => ?_, fun k ht => ?_, fun k hq => ?_,
    fun tr' y h' hp => ?_, fun t tr' y h' => h.verified h',
    fun n x₁ tr' y hs h' halive => h.verification_stopped hs h' halive⟩
  · obtain ⟨c, hc, hfresh⟩ := h.inv.tentative ht
    obtain ⟨c', hc', hloaded⟩ := h.inv.quarantined hq
    cases hc.symm.trans hc'
    exact hfresh hloaded
  · obtain ⟨c, hc, -⟩ := h.inv.tentative ht
    exact hkey hc
  · obtain ⟨c, hc, -⟩ := h.inv.quarantined hq
    exact hkey hc
  · have hno := hp.not_quarantines h h'
    exact ⟨fun id hs => h.settled_stays h' hno hs, fun k hq => (quarantined_run h h' hno hq).1⟩

/-- The loop an event ends. -/
def stopsLoop : Ev → Option ℕ
  | .finished (.verification n) .claimVerification (.again false) => some n
  | _ => none

theorem stopsLoop_eq_some {n : ℕ} (h : stopsLoop ev = some n) :
    ev = .finished (.verification n) .claimVerification (.again false) := by
  unfold stopsLoop at h
  split at h
  · cases h
    rfl
  · cases h

/-- A row that startup could not verify, and the loop that settles it and stops. -/
theorem markers_attached_of_late_listing :
    ∃ tr₁ x₁ tr x ev y, Runs fullConfig (.table (sampleFile "ns/p" (sampleClaim "s1"
        (samplePod "p" "uid-1" [])))) tr₁ x₁ ∧ x₁.shared.mem.quarantined = {"ns/p"} ∧
      x₁.shared.mem.quarantined ⊆ x₁.shared.mem.claims.keys ∧
      Runs fullConfig (.table (sampleFile "ns/p" (sampleClaim "s1"
        (samplePod "p" "uid-1" [])))) tr x ∧ Step (machine fullConfig) x ev y ∧
      stopsLoop ev = some 0 ∧ y.shared.mem.quarantined = ∅ := by
  obtain ⟨tr₁, x₁, ev, tr₂, x, ev', y, h₁, h, hs, hq, hstop⟩ := exists_two_steps fullConfig
    (.table (sampleFile "ns/p" (sampleClaim "s1" (samplePod "p" "uid-1" []))))
    (call .boot .new 14
      { file := .decoded (sampleFile "ns/p" (sampleClaim "s1" (samplePod "p" "uid-1" [])))
        listed := .error "down" })
    (.start (.verification 0) .claimVerification)
    (steps (.verification 0) 5 { listed := .ok [sampleSummary "s1"] })
    (.move (.verification 0) ({} : World).reply)
    (fun _ s _ _ _ ev => s.mem.quarantined = {"ns/p"} ∧ stopsLoop ev = some 0) (by decide +kernel)
  obtain ⟨-, -, hkeys, -⟩ := markers_attached h₁
  obtain ⟨-, -, -, -, -, hloop⟩ := markers_attached h
  refine ⟨tr₁, x₁, _, x, ev', y, h₁, hq, hkeys, h, hs, hstop, ?_⟩
  rw [stopsLoop_eq_some hstop] at hs
  exact hloop 0 y [] y hs .nil (List.forall_mem_nil _)

end VkSandbox
