import VkSandbox.Properties.Leases
import VkSandbox.Properties.Markers

/-!
# Properties/Quarantine — a loaded row is nobody's until the node has vouched for it

A row from the state file may name a sandbox that is long gone, or one that still runs.  Until a
listing of this process has had it (`State.Unverified`), nothing may be done on the strength of it:

    adopt, notify, withdrawForRelease    not at all
    GetPodStatus                         pending
    CreatePod at its key                 an error, or wait for a listing
    settle                               the row goes, on the word of a listing that lacks it

The guards of the outline say so event by event.  For a whole `CreatePod` the row is followed
through the call: it stays, or some listing settles it (`State.Judged`).
-/

namespace VkSandbox

open Interleave Interleave.Prog

variable {cfg : Config} {file : File} {tr tr' : List Ev} {ev : Ev} {t : Tid} {s s' : State}
  {k : Key} {c : Claim} {id : String} {pod : Pod}
  {x y z : Interleave.Config State Memory Section Request Reply Tid Op Outcome}

/-! ## Unverified rows -/

/-- The row `c` of `k` is from the file, and no listing of this process has had its sandbox. -/
structure State.Unverified (s : State) (k : Key) (c : Claim) : Prop where
  row : s.row k = some c
  loaded : c.id ∈ s.ledger.loaded
  unlisted : c.id ∉ s.ledger.vouched

namespace State.Unverified

theorem not_settled (hu : s.Unverified k c) (hl : cfg.lister) (hi : Inv cfg s)
    (hup : s.phase = .up) :
    ¬ s.mem.settled k := fun hs => hu.unlisted (hi.vouched hl hup hu.row hs hu.loaded)

/-- **It is quarantined.** -/
theorem quarantined (hu : s.Unverified k c) (hl : cfg.lister) (hi : Inv cfg s)
    (hup : s.phase = .up) :
    k ∈ s.mem.quarantined := by
  rcases Memory.settled_eq_false.mp (Bool.eq_false_iff.mpr (hu.not_settled hl hi hup)) with ht | hq
  · obtain ⟨c', hc', hfresh⟩ := hi.tentative ht
    cases hc'.symm.trans hu.row
    exact absurd hu.loaded hfresh
  · exact hq

/-- **It is reported pending.** -/
theorem pending (hu : s.Unverified k c) (hl : cfg.lister) (hi : Inv cfg s) (hup : s.phase = .up)
    {now : Time} {ns name : String} {st : PodStatus} (hk : podKey ns name = k)
    (hst : getPodStatus cfg.platform s.mem now ns name = some st) : st.phase = .pending := by
  by_contra hne
  obtain ⟨c', hc'⟩ := claimFor_of_getPodStatus hst hne
  rw [hk] at hc'
  exact hu.not_settled hl hi hup (Memory.claimFor_eq_some.mp hc').1

end State.Unverified

/-- **What an event does not do to the row `c` of `k`.** -/
structure Spares (k : Key) (c : Claim) (ev : Ev) (s' : State) : Prop where
  adopts : ∀ t pod, ev ≠ .locked t (.adoptExistingClaim k pod)
  notifies : ∀ t pod, pod.key = k → ev ≠ .asked t (.notify pod) ()
  claims : ∀ t spec, spec.claimRef = k → ev ≠ .asked t (.sendClaim spec) ()
  withdraws : ∀ t c₀, ev = .locked t (.withdrawForRelease k c₀) → s'.row k = some c

/-- **Every event spares an unverified row.** -/
theorem State.Unverified.spares (hu : s.Unverified k c) (hl : cfg.lister) (hi : Inv cfg s)
    (hg : Guard cfg ev s) (ha : apply ev s = some s') : Spares k c ev s' where
  adopts := by
    rintro t pod rfl
    obtain ⟨hlive, rfl, -, -, hq, -⟩ := hg
    exact hq (hu.quarantined hl hi hlive)
  notifies := by
    rintro t pod rfl rfl
    exact hu.unlisted (hg.2.1 hl c hu.row hu.loaded)
  claims := by
    rintro t spec rfl rfl
    obtain ⟨-, -, hnone, -⟩ := hg
    cases hu.row.symm.trans hnone
  withdraws := by
    rintro t c₀ rfl
    obtain ⟨hlive, rfl, -, -, hcur⟩ := hg
    rw [← Option.some.inj ha]
    refine Memory.row_withdrawForRelease.mpr ⟨hu.row, fun hw => ?_⟩
    obtain ⟨cur, hc, hid, -⟩ := Memory.withdrawable_iff.mp hw.2
    exact hu.not_settled hl hi hlive (hcur cur hc hid).2

/-! ## Notifications -/

/-- **Whatever is notified is of a sandbox some listing has had**, if it was loaded at all. -/
theorem Runs.notified_verified (hl : cfg.lister) (h : Runs cfg file tr x)
    (hs : Step (machine cfg) x (.asked t (.notify pod) ()) y) :
    ∃ c p, (pod = runningPod p c ∨ pod = expiredPod cfg.platform p c) ∧
      (c.id ∈ x.shared.ledger.loaded → c.id ∈ x.shared.ledger.vouched) := by
  obtain ⟨-, -, hrun, c, p, -, ⟨hpod, -⟩ | ⟨hpod, n, rfl⟩⟩ := (h.next hs).1
  · obtain ⟨id, hentry, hguard⟩ := hrun (by rw [hpod]; rfl)
    rw [hpod] at hentry
    obtain rfl : c.id = id := by
      simpa [runningEntry, runningPod, runningStatus, podWithClaim] using hentry
    exact ⟨c, p, .inl hpod, hguard.vouched hl⟩
  · have hnotice : notifiedExpired (.asked (.leaseWatch n) (.notify pod) ()) =
        some (.leaseWatch n, pod) := by
      rw [hpod]
      rfl
    obtain ⟨tick, mid, s₄, s₅, c', hj, hconf, hset⟩ := h.expired_confirmed hl hs hnotice
    have hmem : (.read (.leaseWatch n), s₄) ∈ journal cfg file (.leaseWatch n) tr := by
      rw [hj]
      simp
    have hev : Evolves s₄ x.shared := h.entry_evolves (by simp) hmem
    obtain ⟨p', -, hpod'⟩ := hconf.published
    obtain ⟨cur, hcur, hid⟩ := hconf.held
    refine ⟨c', p', .inr hpod', fun hload => hev.vouched ?_⟩
    rw [← hid] at hload ⊢
    exact (h.entry_guard hmem).1.vouched hl (h.entry_live hmem) hcur hset (hev.loaded ▸ hload)

/-! ## A whole `CreatePod` -/

/-- **A listing has settled the sandbox `id` at `k`**: one had it, or one lacked it and it is
gone. -/
def State.Judged (s : State) (k : Key) (id : String) : Prop :=
  id ∈ s.ledger.vouched ∨ id ∈ s.ledger.missed ∧ ∀ c, s.row k = some c → c.id ≠ id

/-- What is settled stays settled, within the process. -/
theorem State.Judged.evolves (h : s.Judged k id) (hev : Evolves s s') (hl : id ∈ s.ledger.loaded) :
    s'.Judged k id := by
  refine h.imp (fun hv => hev.vouched hv) fun ⟨hm, hgone⟩ => ⟨hev.missed hm, fun c hc hid => ?_⟩
  obtain ⟨c₀, hc₀, hsame, -⟩ | hnew := hev.rows hc
  · exact hgone c₀ hc₀ (hsame.id.symm.trans hid)
  · exact hnew.1 (hid ▸ hl)

/-- The row of `k` is the sandbox `id`, or a listing has settled it. -/
def State.HeldOrJudged (s : State) (k : Key) (id : String) : Prop :=
  (∃ c, s.row k = some c ∧ c.id = id) ∨ s.Judged k id

/-- **One step of a `CreatePod` at `k`, by whomever**: a loaded row stays, or a listing settles
it. -/
theorem State.HeldOrJudged.step (h : s.HeldOrJudged k id) (hl : cfg.lister) (hi : Inv cfg s)
    (hg : Guard cfg ev s) (ha : apply ev s = some s') (hev : Evolves s s') (hup : s.phase = .up)
    (hload : id ∈ s.ledger.loaded) (hserves : ∃ pod, s.Serves (.lifecycle k) pod) :
    s'.HeldOrJudged k id := by
  obtain ⟨c, hc, rfl⟩ | hj := h
  swap
  · exact .inr (hj.evolves hev hload)
  by_cases hheld : ∃ c', s'.row k = some c' ∧ c'.id = c.id
  · exact .inl hheld
  have hmissed : c.id ∈ s.ledger.missed → s'.HeldOrJudged k c.id := fun hm =>
    .inr (.inr ⟨hev.missed hm, fun c' hc' hid => hheld ⟨c', hc', hid⟩⟩)
  have hsettled : s.mem.settled k → s'.HeldOrJudged k c.id := fun hset =>
    .inr (.inl (hev.vouched (hi.vouched hl hup hc hset hload)))
  obtain ⟨hm, -⟩ | ⟨t, a, rfl, hm, -⟩ | ⟨-, -, -, hdown⟩ := (effect ha).tables
  · exact absurd ⟨c, by rw [State.row, hm]; exact hc, rfl⟩ hheld
  · obtain ⟨c', hc', hsame⟩ | hend := hg.2.forward hc
    · exact absurd ⟨c', by rw [State.row, hm]; exact hc', hsame.id⟩ hheld
    · cases hend with
      | unlisted _ _ _ hmiss => exact hmissed hmiss
      | dropped _ _ hset _ => exact hsettled hset
      | superseded _ _ hset _ => exact hsettled hset
      | rechecked _ _ _ hset _ _ _ => exact hsettled hset
      | withdrawn he ht _ =>
        -- a create withdraws its own tentative claim only
        subst he ht
        obtain ⟨pod, hpod⟩ := hserves
        obtain ⟨c', hc', hfresh⟩ := hi.tentative (hg.2.2.2.2.1 pod hpod).1
        cases hc'.symm.trans hc
        exact absurd hload hfresh
  · rw [hev.phase, hup] at hdown
    cases hdown

theorem CallFrom.serves (h : CallFrom cfg file tr x t (.createPod pod) tr' y) :
    y.shared.Serves t pod := by
  obtain ⟨n, hn⟩ := h.run.calls_inCall h.inCall
  exact ⟨n, .inl hn⟩

/-- One event of a call is one of its process. -/
theorem CallFrom.step_evolves {op : Op} (h : CallFrom cfg file tr x t op tr' y) (ht : t ≠ .boot)
    (hs : Step (machine cfg) y ev z) (hev : ¬ ev.Resets t) : Evolves y.shared z.shared := by
  refine h.run.evolves (Run.nil.snoc hs) (h.up ht) fun ev' hev' => ?_
  rw [List.mem_singleton.mp hev']
  rintro rfl
  exact hev trivial

/-- **Through a whole `CreatePod`** a loaded row stays, or a listing settles it. -/
theorem CallFrom.heldOrJudged (h : CallFrom cfg file tr x (.lifecycle k) (.createPod pod) tr' y)
    (hl : cfg.lister) (hu : x.shared.Unverified k c) : y.shared.HeldOrJudged k c.id := by
  refine h.induct (P := fun _ y => y.shared.HeldOrJudged k c.id) (fun hs => ?_) ?_
  · obtain ⟨hm, -⟩ | ⟨u, a, he, -⟩ | ⟨he, -⟩ := (effect (h.before.next hs).2).tables
    · exact .inl ⟨c, by rw [State.row, hm]; exact hu.row, rfl⟩
    · cases he
    · cases he
  · intro w x₁ ev x₂ hw hs hev ih
    obtain ⟨hg, ha⟩ := hw.run.next hs
    have hload : c.id ∈ x₁.shared.ledger.loaded := by
      rw [(hw.evolves (by simp)).loaded]
      exact hu.loaded
    exact ih.step hl hw.run.inv hg ha (hw.step_evolves (by simp) hs hev) (hw.up (by simp)) hload
      ⟨pod, hw.serves⟩

/-! ## What a `CreatePod` does before it proceeds -/

/-- The call has found its key, or all keys, out of quarantine, or has settled the quarantine
itself. -/
def Cleared (t : Tid) (k : Key) (l : List Entry) : Prop :=
  (∃ s, ((.read t, s) : Entry) ∈ l ∧ (k ∉ s.mem.quarantined ∨ s.mem.unverified.keys = ∅)) ∨
    ∃ before live s, ((.locked t (.settle before live), s) : Entry) ∈ l

/-- **A `CreatePod` clears its key before it enters any other section.** -/
def ClearsFirst (t : Tid) : Op → List Entry → Ev → State → Prop
  | .createPod pod, l, ev, _ => ∀ u a, ev = .locked u a → (∀ before live, a ≠ .settle before live) →
      Cleared t pod.key l
  | _, _, _, _ => True

theorem Cleared.mono {l l' : List Entry} (h : Cleared t k l) (hl : l ⊆ l') : Cleared t k l' :=
  h.imp (fun ⟨s, hm, hs⟩ => ⟨s, hl hm, hs⟩) fun ⟨before, live, s, hm⟩ => ⟨before, live, s, hl hm⟩

theorem cleared_of_verified {l : List Entry} (h : VerifyDone t l true) : Cleared t k l := by
  obtain ⟨l₀, ev, s, rfl, ⟨rfl, he⟩ | ⟨before, live, rfl⟩⟩ := h rfl
  · exact .inl ⟨s, by simp, .inr he⟩
  · exact .inr ⟨before, live, s, by simp⟩

theorem clearsFirst_read {l : List Entry} {u : Tid} :
    ClearsFirst t (.createPod pod) l (.read u) s := fun _ _ he => by cases he

theorem clears_verify (l : List Entry) : Text cfg t (ClearsFirst t (.createPod pod)) (VerifyDone t)
    (verifyClaimsAgainstNode cfg) l := by
  have henters : (verifyClaimsAgainstNode cfg).Enters
      fun a => ∃ before live, a = .settle before live :=
    enters_verify fun before live => ⟨before, live, rfl⟩
  have hsettles : Text cfg t (ClearsFirst t (.createPod pod)) (fun _ _ => True) _ l :=
    Machine.Follows.of_enters henters fun l ev s hev u a he hne => by
      obtain ⟨before, live, rfl⟩ := hev u a he
      exact absurd rfl (hne before live)
  exact (hsettles.and (text_verifyClaims l)).imp (fun _ _ _ h => h.1) fun _ _ h => h.2

theorem clears_createPod (cfg : Config) (t : Tid) (pod : Pod) :
    Text cfg t (ClearsFirst t (.createPod pod)) (fun _ _ => True) (createPod cfg pod) [] := by
  unfold createPod
  dsimp only
  split
  · trivial
  refine Machine.Follows.orReturn (P := fun l r => r = .ok () → Cleared t pod.key l) ?_
    (fun _ _ _ => trivial) fun l _ hl => ?_
  · unfold resolveUnverifiedClaim
    refine Text.look fun s => ⟨clearsFirst_read, ?_⟩
    split
    · next hq => exact fun _ => .inl ⟨s, by simp, .inl (by simpa using hq)⟩
    refine Machine.Follows.call (clears_verify _) fun l b hdone => ?_
    split
    · next hb => exact fun _ => cleared_of_verified (hb ▸ hdone)
    · exact nofun
  · exact (Machine.Follows.free (hl rfl) (fun l ev s hcl u a _ _ => hcl) fun l e hcl =>
      hcl.mono (List.subset_append_left _ _)).mono fun _ _ _ => trivial

theorem follows_clears (cfg : Config) (t : Tid) : Follows cfg t (ClearsFirst t) (fun op _ r =>
    ∀ pod, op = .createPod pod → r = .ok ∨ ∃ e, r = .err e) := by
  intro op s s' _
  cases op with
  | createPod pod =>
    refine Machine.Follows.map ((clears_createPod cfg t pod).mono fun l r _ _ _ => ?_)
    cases r with
    | ok _ => exact .inl rfl
    | error e => exact .inr ⟨e, rfl⟩
  | _ => exact (Machine.Follows.free (P := fun _ => True) trivial (fun _ _ _ _ => trivial)
      fun _ _ _ => trivial).mono fun _ _ _ _ he => by cases he

/-- **Past a cleared key nothing unverified is left.** -/
theorem CallFrom.judged_of_cleared
    (h : CallFrom cfg file tr x (.lifecycle k) (.createPod pod) tr' y) (hl : cfg.lister)
    (hu : x.shared.Unverified k c)
    (hcl : Cleared (.lifecycle k) k
      (journal cfg file (.lifecycle k) (tr ++ .started (.lifecycle k) (.createPod pod) :: tr'))) :
    y.shared.Judged k c.id := by
  obtain ⟨c', hc', hid⟩ | hj := h.heldOrJudged hl hu
  swap
  · exact hj
  by_contra hno
  have hload : c'.id ∈ y.shared.ledger.loaded := by
    rw [hid, (h.evolves (by simp)).loaded]
    exact hu.loaded
  have hun : y.shared.Unverified k c' := ⟨hc', hload, fun hv => hno (.inl (hid ▸ hv))⟩
  have hq : k ∈ y.shared.mem.quarantined := hun.quarantined hl h.run.inv (h.up (by simp))
  -- it was in quarantine at every earlier moment of the call
  have hback : ∀ {s : State}, Evolves s y.shared → k ∈ s.mem.quarantined := by
    intro s hev
    obtain ⟨c₀, -, -, -, hq₀⟩ | hnew := hev.rows hc'
    · exact hq₀ hq
    · exact absurd (hev.loaded ▸ hload) hnew.1
  obtain ⟨s, hmem, hclear⟩ | ⟨before, live, s, hmem⟩ := hcl
  · have hq₀ := hback (h.run.entry_evolves (by simp) hmem)
    rcases hclear with hn | he
    · exact hn hq₀
    · rw [quarantined_eq_empty (h.run.entry_guard hmem).1 he] at hq₀
      simp at hq₀
  · have hup := (h.run.entry_live hmem).eq_up (by simp)
    obtain ⟨l₁, l₂, hj⟩ := List.append_of_mem hmem
    obtain ⟨tr₁, tr₂, x₁, x₂, -, h₁, rfl, -, hs, hrest, hno⟩ := h.run.entry hj
    have hrun₂ : Runs cfg file (tr₁ ++ [.locked (.lifecycle k) (.settle before live)]) x₂ :=
      h₁.snoc hs
    have hup₂ : x₂.shared.phase = .up := by
      have ha : apply (.locked (.lifecycle k) (.settle before live)) x₁.shared = some x₂.shared :=
        (h₁.next hs).2
      rw [← Option.some.inj ha]
      exact hup
    have hq₂ := hback (hrun₂.evolves hrest hup₂ (not_crashed_of_resets hno))
    rw [h₁.settle_empties hs] at hq₂
    simp at hq₂

/-- What a thread does in its call is in the journal. -/
theorem CallFrom.mem_journal {op : Op} (h : CallFrom cfg file tr x t op tr' y) (hev : ev ∈ tr')
    (ht : ev.tid = some t) : ∃ s, (ev, s) ∈ journal cfg file t (tr ++ .started t op :: tr') := by
  refine h.induct
    (P := fun w _ => ev ∈ w → ∃ s, (ev, s) ∈ journal cfg file t (tr ++ .started t op :: w))
    (fun _ hmem => by cases hmem) (fun {w x₁ ev₁ x₂} hw hs hres ih hmem => ?_) hev
  rw [hw.journal_snoc hs hres]
  rcases List.mem_append.mp hmem with hmem | hmem
  · obtain ⟨s, hs'⟩ := ih hmem
    refine ⟨s, ?_⟩
    split
    · exact List.mem_append_left _ hs'
    · exact hs'
  · obtain rfl := List.mem_singleton.mp hmem
    rw [if_pos ht]
    exact ⟨x₁.shared, by simp⟩

/-- **A `CreatePod` proceeds only after a listing has settled the row.** -/
theorem CallFrom.proceeds_judged (h : CallFrom cfg file tr x (.lifecycle k) (.createPod pod) tr' y)
    (hl : cfg.lister) (hu : x.shared.Unverified k c) (hk : pod.key = k) {a : Section}
    (hs : Step (machine cfg) y (.locked (.lifecycle k) a) z)
    (ha : ∀ before live, a ≠ .settle before live) : y.shared.Judged k c.id := by
  obtain ⟨op, hop, htext⟩ := h.run.locked (follows_clears cfg (.lifecycle k)) hs
  obtain ⟨p, hp⟩ := hop
  obtain ⟨p', hp'⟩ := h.inCall
  cases hp.symm.trans hp'
  have hcl := htext _ a rfl ha
  rw [hk] at hcl
  exact h.judged_of_cleared hl hu hcl

/-- **A `CreatePod` that returns** has waited for a listing, or returns an error and has entered no
section at all. -/
theorem CallFrom.returns_judged (h : CallFrom cfg file tr x (.lifecycle k) (.createPod pod) tr' y)
    (hl : cfg.lister) (hu : x.shared.Unverified k c) (hk : pod.key = k) {r : Outcome}
    (hs : Step (machine cfg) y (.finished (.lifecycle k) (.createPod pod) r) z) :
    y.shared.Judged k c.id ∨ (∃ e, r = .err e) ∧ ∀ a, .locked (.lifecycle k) a ∉ tr' := by
  by_cases hj : y.shared.Judged k c.id
  · exact .inl hj
  refine .inr ⟨?_, fun a ha => hj ?_⟩
  · refine (h.run.finished (follows_clears cfg (.lifecycle k)) hs pod rfl).resolve_left ?_
    -- a create that succeeds leaves a settled key
    rintro rfl
    obtain ⟨-, -, -, -, -, -, id, hdone⟩ := (h.run.next hs).1
    obtain ⟨c', hc', hid⟩ := (h.heldOrJudged hl hu).resolve_right hj
    refine hj (.inl ?_)
    rw [← hid]
    refine h.run.inv.vouched hl (h.up (by simp)) hc' hdone.settled ?_
    rw [hid, (h.evolves (by simp)).loaded]
    exact hu.loaded
  · obtain ⟨s, hmem⟩ := h.mem_journal ha rfl
    refine h.judged_of_cleared hl hu ?_
    by_cases hsettle : ∃ before live, a = .settle before live
    · obtain ⟨before, live, rfl⟩ := hsettle
      exact .inr ⟨before, live, s, hmem⟩
    · obtain ⟨l₁, l₂, hsplit⟩ := List.append_of_mem hmem
      have hcl := h.run.entry_text (follows_clears cfg (.lifecycle k)) h.inCall hsplit _ a rfl
        fun before live he => hsettle ⟨before, live, he⟩
      rw [hk] at hcl
      rw [hsplit]
      exact hcl.mono (List.subset_append_left _ _)

/-! ## Failed listings -/

/-- A listing of the call has failed. -/
def ListingFailed (t : Tid) (l : List Entry) : Prop :=
  ∃ err s, ((.asked t .sandboxes (.error err), s) : Entry) ∈ l

/-- **A verification whose listing fails** returns false and has entered no section. -/
theorem failed_verify (cfg : Config) (t : Tid) : Text cfg t (fun _ _ _ => True)
    (fun l b => ListingFailed t l → b = false ∧ ∀ e ∈ l, ∀ a, e.1 ≠ .locked t a)
    (verifyClaimsAgainstNode cfg) [] := by
  unfold verifyClaimsAgainstNode
  split
  · exact fun _ => ⟨rfl, List.forall_mem_nil _⟩
  refine Text.look fun s₁ => ⟨trivial, ?_⟩
  split
  · rintro ⟨err, s, hmem⟩
    simp at hmem
  unfold sandboxes
  refine Text.request fun u s₂ _ _ => ⟨trivial, Text.request fun r s₃ _ _ => ⟨trivial, ?_⟩⟩
  cases r with
  | error err => exact fun _ => ⟨rfl, by simp⟩
  | ok listed =>
    refine Text.enter fun s₄ => ⟨trivial, ?_⟩
    rintro ⟨err, s, hmem⟩
    simp at hmem

theorem verify_failed {b : Bool}
    (h : Executes (machine cfg) t (verifyClaimsAgainstNode cfg) x tr' b y) {err : String}
    (hev : .asked t .sandboxes (.error err) ∈ tr') : b = false ∧ ∀ a, .locked t a ∉ tr' := by
  have hown : ∀ {ev : Ev}, ev ∈ tr' → ev.tid = some t →
      ∃ s, (ev, s) ∈ (machine cfg).journal t [] x.shared tr' := by
    intro ev hev htid
    have hmem : ev ∈ ((machine cfg).journal t [] x.shared tr').map Prod.fst := by
      rw [h.run.journal_events h.whole]
      exact List.mem_filter.mpr ⟨hev, decide_eq_true htid⟩
    obtain ⟨⟨ev', s⟩, hs, rfl⟩ := List.mem_map.mp hmem
    exact ⟨s, hs⟩
  obtain ⟨s, hs⟩ := hown hev rfl
  obtain ⟨hb, hno⟩ := h.text (failed_verify cfg t) ⟨err, s, hs⟩
  refine ⟨hb, fun a ha => ?_⟩
  obtain ⟨s', hs'⟩ := hown ha rfl
  exact hno _ hs' a rfl

/-! ## The result -/

/-- **Quarantine is sound.**  A row loaded from the file that no listing of this process has had is
quarantined and reported pending; every event spares it; whatever is notified is of another sandbox;
a `CreatePod` at its key proceeds only after a listing has settled it, or returns an error and has
entered no section; and a verification whose listing fails changes nothing. -/
theorem quarantine_sound (hl : cfg.lister) (h : Runs cfg file tr x) :
    (∀ k c, x.shared.Unverified k c → x.shared.phase = .up → k ∈ x.shared.mem.quarantined ∧
      ∀ now ns name st, podKey ns name = k →
        getPodStatus cfg.platform x.shared.mem now ns name = some st → st.phase = .pending) ∧
    (∀ ev y, Step (machine cfg) x ev y →
      (∀ k c, x.shared.Unverified k c → Spares k c ev y.shared) ∧
      (∀ t pod, ev = .asked t (.notify pod) () →
        ∃ c p, (pod = runningPod p c ∨ pod = expiredPod cfg.platform p c) ∧
          (c.id ∈ x.shared.ledger.loaded → c.id ∈ x.shared.ledger.vouched)) ∧
      ∀ t err, ev = .asked t .sandboxes (.error err) → y.shared.mem = x.shared.mem) ∧
    (∀ pod c tr' y, x.shared.Unverified pod.key c →
      CallFrom cfg file tr x (.lifecycle pod.key) (.createPod pod) tr' y →
      (∀ a z, Step (machine cfg) y (.locked (.lifecycle pod.key) a) z →
        (∀ before live, a ≠ .settle before live) → y.shared.Judged pod.key c.id) ∧
      ∀ r z, Step (machine cfg) y (.finished (.lifecycle pod.key) (.createPod pod) r) z →
        y.shared.Judged pod.key c.id ∨
          (∃ e, r = .err e) ∧ ∀ a, .locked (.lifecycle pod.key) a ∉ tr') ∧
    ∀ t tr' b y err, Executes (machine cfg) t (verifyClaimsAgainstNode cfg) x tr' b y →
      .asked t .sandboxes (.error err) ∈ tr' → b = false ∧ ∀ a, .locked t a ∉ tr' := by
  refine ⟨fun k c hu hup =>
    ⟨hu.quarantined hl h.inv hup, fun now ns name st => hu.pending hl h.inv hup⟩,
    fun ev y hs => ⟨fun k c hu => ?_, ?_, ?_⟩, fun pod c tr' y hu hcall =>
      ⟨fun a z => hcall.proceeds_judged hl hu rfl, fun r z => hcall.returns_judged hl hu rfl⟩,
    fun t tr' b y err hex hev => verify_failed hex hev⟩
  · exact hu.spares hl h.inv (h.next hs).1 (h.next hs).2
  · rintro t pod rfl
    exact h.notified_verified hl hs
  · rintro t err rfl
    have ha : answer t .sandboxes (.error err) x.shared = some y.shared := (h.next hs).2
    rw [← Option.some.inj ha]
    rfl

/-- A row that startup could not verify, with its Pod tracked again. -/
theorem quarantine_sound_of_failed_listing :
    ∃ tr x, Runs fullConfig (.table (sampleFile "ns/p" (sampleClaim "s1"
        (samplePod "p" "uid-1" [])))) tr x ∧
      x.shared.Unverified "ns/p" (sampleClaim "s1" (samplePod "p" "uid-1" [])) ∧
      "ns/p" ∈ x.shared.mem.quarantined ∧
      ∃ st, getPodStatus fullConfig.platform x.shared.mem (9 * second) "ns" "p" = some st ∧
        st.phase = .pending := by
  obtain ⟨tr, x, h, hup, hrow, hload, hunl, hst⟩ := exists_run fullConfig
    (.table (sampleFile "ns/p" (sampleClaim "s1" (samplePod "p" "uid-1" []))))
    (call .boot .new 14
      { file := .decoded (sampleFile "ns/p" (sampleClaim "s1" (samplePod "p" "uid-1" [])))
        listed := .error "down" } ++
      call (.lifecycle "ns/p") (.updatePod (samplePod "p" "uid-1" [])) 3 {})
    (fun _ s => s.phase = .up ∧ s.row "ns/p" = some (sampleClaim "s1" (samplePod "p" "uid-1" [])) ∧
      "s1" ∈ s.ledger.loaded ∧ "s1" ∉ s.ledger.vouched ∧
      (getPodStatus fullConfig.platform s.mem (9 * second) "ns" "p").isSome = true)
        (by decide +kernel)
  have hu : x.shared.Unverified "ns/p" (sampleClaim "s1" (samplePod "p" "uid-1" [])) :=
    ⟨hrow, hload, hunl⟩
  obtain ⟨st, hst⟩ := Option.isSome_iff_exists.mp hst
  obtain ⟨hq, hpending⟩ := (quarantine_sound rfl h).1 "ns/p" _ hu hup
  exact ⟨tr, x, h, hu, hq, st, hst, hpending _ "ns" "p" st rfl hst⟩

end VkSandbox
