import VkSandbox.Properties.Reads
import VkSandbox.Properties.Tracking

/-!
# Properties/Durability — what the state file is good for

`Durable`: the release credential of every durable row and of every queued claim is in the file, in
every state.  The file may be an older snapshot; it still covers the tables, because nothing becomes
durable but by a commit whose rename has landed, and because a rename is guarded by covering them.

`Notified` follows a sandbox from its Running notification on, through crashes and restarts: until
it is finished, file and tables hold it.

What a create has bound it saves before it pushes Running.  Between the bind and the push its row
can only be lost to a verification that judges by an old snapshot (`Runs.bound_row`); then the save
writes a table without the row, and the push names a sandbox whose token is nowhere
(`running_not_in_file`).
-/

namespace VkSandbox

open Interleave

variable {cfg : Config} {s s' : State} {t : Tid} {a : Section} {k : Key} {c : Claim}

/-! ## The file covers the tables -/

/-- **The file covers the tables**: it holds the credential of every row that is not tentative and
of every queued claim. -/
def Durable (s : State) : Prop := ∀ cr, (s.mem.snapshot none).Holds cr → s.content.Holds cr

theorem Memory.not_holds_empty {cr : Credential} : ¬ (({} : Memory).snapshot none).Holds cr := by
  intro h
  obtain ⟨k, c, hk, -⟩ | ⟨c, hc, -⟩ := Memory.holds_durable.mp h
  · simp at hk
  · cases hc

theorem Durable.step {ev : Ev} (hsp : cfg.statePath) (h : Durable s) (hg : Guard cfg ev s)
    (hs : apply ev s = some s') : Durable s' := by
  intro cr hcr
  obtain ⟨hm, -⟩ | ⟨t, a, rfl, -, -⟩ | ⟨-, hm, -⟩ := (effect hs).tables
  · rw [hm] at hcr
    obtain ⟨hf, -⟩ | ⟨t, u, d, rfl, hd, hf, -⟩ := (effect hs).file
    · rw [State.content, hf]
      exact h cr hcr
    · obtain ⟨-, -, d', hren⟩ := hg.2
      obtain rfl : d' = d := Option.some.inj (hren.tmp.symm.trans hd)
      rw [State.content, hf]
      exact hren.covers cr hcr
  · cases hs
    obtain hcr | ⟨k, c, rfl, hc, rfl⟩ | ⟨st, now, rfl, hst⟩ := hg.2.durable_back hcr
    · exact h cr hcr
    · obtain ⟨-, -, -, c', hc', -, hfile, -⟩ := hg.2
      obtain rfl : c' = c := Option.some.inj (hc'.symm.trans hc)
      exact .inl ⟨k, c'.marshal, hfile hsp, rfl⟩
    · change s.content.Holds cr
      rw [State.content, hg.2.2.2.1]
      exact hst
  · rw [hm] at hcr
    exact absurd hcr Memory.not_holds_empty

theorem Runs.durable {file : File} {tr : List Ev}
    {x : Interleave.Config State Memory Section Request Reply Tid Op Outcome}
    (hsp : cfg.statePath) (h : Runs cfg file tr x) : Durable x.shared :=
  h.guarded.invariant (sound cfg) (inv_initial cfg file)
    (fun _ hcr => absurd hcr Memory.not_holds_empty) fun _ _ _ _ hj hg hs => hj.step hsp hg hs

/-! ## From the notification on -/

/-- `CreatePod` has dropped the claim as expired; without a lister it does so unasked. -/
def DroppedExpired (tr : List Ev) (id : String) : Prop :=
  ∃ t k, (.locked t (.dropClaim k id) : Ev) ∈ tr

/-- The credential is in the file, and in the tables of a running provider. -/
def State.Safe (s : State) (cr : Credential) : Prop :=
  s.content.Holds cr ∧ (s.phase = .up → (s.mem.snapshot none).Holds cr)

/-- **Every sandbox notified Running is safe until it is finished.** -/
def Notified (cfg : Config) (tr : List Ev) (s : State) : Prop :=
  ∀ e ∈ s.ledger.running, s.Finished e.2 ∨ (cfg.lister = false ∧ DroppedExpired tr e.2) ∨
    ∃ token, s.Safe ⟨e.2, token⟩

/-- While `New` runs no row is tentative, so what it has brought back is durable. -/
theorem State.Recovered.durable (h : s.Recovered) (hi : Inv cfg s) (hp : s.phase ≠ .up)
    {cr : Credential} (hcr : s.content.Holds cr) :
    cr.id ∈ s.ledger.lacked ∨ (s.mem.snapshot none).Holds cr := by
  refine (h.holds hcr).imp (fun hm => hi.missed hm) fun hm => Memory.holds_durable.mpr ?_
  obtain ⟨k, c, hk, he⟩ | hq := hm
  · exact .inl ⟨k, c, hk, by rw [hi.booting hp]; exact Finset.notMem_empty k, he⟩
  · exact .inr hq

/-- A durable credential stays so, or its sandbox is finished. -/
theorem SectionGuard.durable_outcome (hi : Inv cfg s) (hg : SectionGuard cfg s t a)
    {cr : Credential} (h : (s.mem.snapshot none).Holds cr) :
    ((a.run s.mem).snapshot none).Holds cr ∨
      s.Finished cr.id ∨ cfg.lister = false ∧ ∃ k, a = .dropClaim k cr.id := by
  obtain ⟨k, c, hc, ht, rfl⟩ | ⟨c, hc, rfl⟩ := Memory.holds_durable.mp h
  · obtain ⟨c', hc', hsame⟩ | ⟨q, hq, he⟩ | hf | ⟨hno, ha⟩ := hg.row_outcome hi hc
    · refine .inl (Memory.holds_durable.mpr (.inl ⟨k, c', hc', fun ht' => ?_, hsame.cred⟩))
      obtain h' | ⟨pod, c₀, rfl⟩ := Section.tentative_back ht'
      · exact ht h'
      · have hn : s.row k = none := hg.2.2.2.1
        rw [State.row, hc] at hn
        cases hn
    · exact .inl (Memory.holds_durable.mpr (.inr ⟨q, hq, he⟩))
    · exact .inr (.inl hf)
    · exact .inr (.inr ⟨hno, k, ha⟩)
  · exact (hg.queue_outcome hc).imp (fun h => Memory.holds_durable.mpr (.inr ⟨c, h, rfl⟩)) .inl

/-- What was safe stays safe until it is finished, crashes and restarts included. -/
theorem State.Safe.step {ev : Ev} (hsp : cfg.statePath) (hi : Inv cfg s) (hg : Guard cfg ev s)
    (hs : apply ev s = some s') {cr : Credential} (h : s.Safe cr) :
    s'.Safe cr ∨ s'.Finished cr.id ∨
      cfg.lister = false ∧ ∃ t k, ev = .locked t (.dropClaim k cr.id) := by
  have he := effect hs
  -- the file
  have hfile : s'.content.Holds cr ∨ s'.Finished cr.id := by
    obtain ⟨hf, -⟩ | ⟨t, u, d, rfl, hd, hf, -⟩ := he.file
    · exact .inl (by rw [State.content, hf]; exact h.1)
    · obtain ⟨hlive, -, hrec, d', hren⟩ := hg
      obtain rfl : d' = d := Option.some.inj (hren.tmp.symm.trans hd)
      rw [State.content, hf]
      by_cases hp : s.phase = .up
      · exact .inl (hren.covers cr (h.2 hp))
      · -- only `New` writes now, and it has everything back
        have ht : t = .boot := by
          by_contra ht
          exact hp (hlive.eq_up ht)
        obtain hl | hd := (hrec ht).durable hi hp h.1
        · exact .inr (.inr (he.lacked hl))
        · exact .inl (hren.covers cr hd)
  -- the tables
  have htab : (s'.phase = .up → (s'.mem.snapshot none).Holds cr) ∨ s'.Finished cr.id ∨
      cfg.lister = false ∧ ∃ t k, ev = .locked t (.dropClaim k cr.id) := by
    obtain ⟨hm, -⟩ | ⟨t, a, rfl, hm, -⟩ | ⟨-, -, -, hp⟩ := he.tables
    · rw [hm]
      obtain hp | ⟨-, -, hp⟩ | ⟨op, rfl, -⟩ | ⟨-, hp⟩ := he.phase
      · exact .inl fun hup => h.2 (hp.symm.trans hup)
      · exact .inl fun hup => absurd (hp.symm.trans hup) (by decide)
      · have hlive : s.phase = .booting := hg.1
        obtain hl | hd := ((hg.2.2.2.1 hsp).1).durable hi (by rw [hlive]; decide) h.1
        · exact .inr (.inl (.inr (he.lacked hl)))
        · exact .inl fun _ => hd
      · exact .inl fun hup => absurd (hp.symm.trans hup) (by decide)
    · by_cases hp : s.phase = .up
      · obtain hd | hf | ⟨hno, k, rfl⟩ := hg.2.durable_outcome hi (h.2 hp)
        · exact .inl fun _ => by rw [hm]; exact hd
        · exact .inr (.inl (he.finished_mono hf))
        · exact .inr (.inr ⟨hno, t, k, rfl⟩)
      · cases hs
        exact .inl fun hup => absurd hup hp
    · exact .inl fun hup => absurd (hp.symm.trans hup) (by decide)
  obtain hf | hf := hfile
  · exact htab.imp_left fun h => ⟨hf, h⟩
  · exact .inr (.inl hf)

/-- A claim notified Running is durable, unless a listing has ended it meanwhile. -/
theorem RunningGuard.safe {id : String} (h : RunningGuard cfg s t k id) (hi : Inv cfg s)
    (hd : Durable s) :
    (∃ c, s.row k = some c ∧ c.id = id ∧ s.Safe c.cred) ∨ id ∈ s.ledger.lacked := by
  obtain ⟨c, hc, rfl⟩ | ⟨-, hl, -⟩ := h.held
  · obtain ⟨hs, hrow⟩ := Memory.claimFor_eq_some.mp hc
    have hsnap : (s.mem.snapshot none).Holds c.cred :=
      Memory.holds_durable.mpr (.inl ⟨k, c, hrow, (Memory.settled_eq_true.mp hs).1, rfl⟩)
    exact .inl ⟨c, hrow, rfl, hd _ hsnap, fun _ => hsnap⟩
  · exact .inr (hi.missed hl)

theorem Notified.step {ev : Ev} {tr : List Ev} (hsp : cfg.statePath) (hi : Inv cfg s)
    (hd : Durable s) (h : Notified cfg tr s) (hg : Guard cfg ev s) (hs : apply ev s = some s') :
    Notified cfg (tr ++ [ev]) s' := by
  intro e hmem
  have he := effect hs
  have hsafe : ∀ {token}, s.Safe ⟨e.2, token⟩ → s'.Finished e.2 ∨
      (cfg.lister = false ∧ DroppedExpired (tr ++ [ev]) e.2) ∨ ∃ token, s'.Safe ⟨e.2, token⟩ := by
    intro token hsafe
    obtain h' | hf | ⟨hno, t, k, rfl⟩ := hsafe.step hsp hi hg hs
    · exact .inr (.inr ⟨token, h'⟩)
    · exact .inl hf
    · exact .inr (.inl ⟨hno, t, k, by simp⟩)
  obtain hold | ⟨t, pod, rfl, hrun⟩ := he.running_new hmem
  · obtain hf | ⟨hno, t, k, hev⟩ | ⟨token, h'⟩ := h e hold
    · exact .inl (he.finished_mono hf)
    · exact .inr (.inl ⟨hno, t, k, List.mem_append_left _ hev⟩)
    · exact hsafe h'
  · obtain ⟨-, -, hguard⟩ := hg
    have hphase : pod.status.phase = .running := by
      by_contra hne
      simp [runningEntry, hne] at hrun
    obtain ⟨id, hid, hrg⟩ := hguard.1 hphase
    obtain rfl : e = (pod.key, id) := Option.some.inj (hrun.symm.trans hid)
    obtain ⟨c, -, rfl, hc⟩ | hl := hrg.safe hi hd
    · exact hsafe hc
    · exact .inl (he.finished_mono (.inr hl))

theorem Runs.notified {file : File} {tr : List Ev}
    {x : Interleave.Config State Memory Section Request Reply Tid Op Outcome}
    (hsp : cfg.statePath) (h : Runs cfg file tr x) : Notified cfg tr x.shared := by
  refine (h.guarded.induct (sound cfg) (inv_initial cfg file)
    (J := fun tr s => Durable s ∧ Notified cfg tr s)
    ⟨fun _ hcr => absurd hcr Memory.not_holds_empty, fun e he => by cases he⟩ ?_).2
  exact fun tr ev s s' hi hj hg hs => ⟨hj.1.step hsp hg hs, hj.2.step hsp hi hj.1 hg hs⟩

/-! ## From the bind to the notification -/

section Results

variable {file : File} {tr : List Ev} {pod : Pod}
  {x x' : Interleave.Config State Memory Section Request Reply Tid Op Outcome}

/-- **From the bind to the push the row is there**, if every verification spares the tracked
keys. -/
theorem Runs.bound_row (h : Runs cfg file tr x)
    (hC : (machine cfg).Along SparesTracked (State.initial file) tr) (hup : x.shared.phase = .up)
    (hpod : pod.key = k) (hb : JustBound pod (journal cfg file (.lifecycle k) tr) c) :
    x.shared.row k ≠ none := by
  refine h.induct_journal (t := .lifecycle k) nofun (.of_along hC)
    (J := fun l s => s.phase = .up → JustBound pod l c → s.row k ≠ none) ?_ ?_ ?_ hup hb
  · rintro s - ⟨l₁, e, l₂, hl, -⟩
    simp at hl
  · intro tr x ev x' h hs _ hup _ ih _ hb
    obtain hbound | ⟨hbefore, hcommits⟩ := hb.last
    · rw [← hpod]
      exact (showsBind_of_bound hbound (Step.apply hs)).2
    · obtain ⟨hm, -⟩ | ⟨t, a, rfl, hm, -⟩ | ⟨he, -⟩ := (effect (Step.apply hs)).tables
      · rw [State.row, hm]
        exact ih hup hbefore
      · cases a with
        | clearTentative key => rw [State.row, hm]; exact ih hup hbefore
        | _ => cases hcommits
      · cases ev with
        | crashed | finished t op r => cases hcommits
        | _ => cases he
  · intro tr x ev x' h hs hc hup hne htid ih hup' hb
    obtain ⟨hg, ha⟩ := h.next hs
    obtain ⟨hm, -⟩ | ⟨t, a, rfl, hm, -⟩ | ⟨-, -, -, hdown⟩ := (effect ha).tables
    · rw [State.row, hm]
      exact ih hup hb
    · obtain ⟨p, hp, -⟩ := (h.shows_bind hup hpod hb).pod
      obtain ⟨c', hc'⟩ := Option.ne_none_iff_exists'.mp (ih hup hb)
      rw [State.row, hm]
      exact (hg.2.tracked_row hc hp hc').resolve_right fun hown => htid (congrArg some hown.1)
    · rw [hdown] at hup'
      cases hup'

/-- **A Running notification is of a row whose credential is in the file**, if every verification
spares the tracked keys. -/
theorem Runs.running_held (hsp : cfg.statePath) (h : Runs cfg file tr x)
    (hC : (machine cfg).Along SparesTracked (State.initial file) tr) {ev : Ev}
    (hs : Step (machine cfg) x ev x') (hev : notifiedRunning ev = some pod) :
    ∃ c, x.shared.row pod.key = some c ∧ pod.annotations.lookup annClaimID = some c.id ∧
      x.shared.content.Holds c.cred := by
  obtain ⟨hg, -⟩ := h.next hs
  obtain ⟨t, rfl, hphase⟩ := notifiedRunning_eq_some hev
  obtain ⟨id, hid, hrg⟩ := hg.2.2.1 hphase
  simp only [runningEntry, hphase, if_true, Option.map_eq_some_iff, Prod.mk.injEq] at hid
  obtain ⟨id', hid', -, rfl⟩ := hid
  obtain rfl := hrg.thread
  obtain ⟨c, hc, rfl⟩ | ⟨hnone, -⟩ := hrg.held
  · obtain ⟨hset, hrow⟩ := Memory.claimFor_eq_some.mp hc
    refine ⟨c, hrow, hid', h.durable hsp _ (Memory.holds_durable.mpr ?_)⟩
    exact .inl ⟨_, c, hrow, (Memory.settled_eq_true.mp hset).1, rfl⟩
  · obtain ⟨op, -, p, -, hkey, htext⟩ := h.asked (follows_push pod.key) hs
    obtain ⟨c, -, hb⟩ := htext _ _ _ rfl
    exact absurd hnone (h.bound_row hC hg.1 hkey hb)

/-! ## Release credentials are durable -/

/-- **Release credentials are durable.**  With a state path, the file holds the credential of every
row that is not tentative and of every queued claim.  So a status that says Running is backed by the
file, and a Running notification too, unless a listing has lacked the sandbox since `CreatePod`
looked.  And after any crash and restart a sandbox once notified Running is held again, with its
token, unless it is finished, or was dropped as expired by a provider without a lister.

With a lister, and if the last section of every verification spares the tracked keys, there are no
exceptions: every Running notification is of a row whose credential is in the file at that moment,
and every sandbox ever notified Running is held until it is finished. -/
theorem credentials_durable (hsp : cfg.statePath) (h : Runs cfg file tr x) :
    ((∀ k c, x.shared.row k = some c → k ∉ x.shared.mem.tentative →
        x.shared.content.Holds c.cred) ∧
      ∀ c ∈ x.shared.mem.releasing, x.shared.content.Holds c.cred) ∧
    (∀ ev x' pod, Step (machine cfg) x ev x' → notifiedRunning ev = some pod →
      ∃ id, pod.annotations.lookup annClaimID = some id ∧
        ((∃ c, x.shared.row pod.key = some c ∧ c.id = id ∧ x.shared.content.Holds c.cred) ∨
          id ∈ x.shared.ledger.lacked)) ∧
    (∀ now ns name st, getPodStatus cfg.platform x.shared.mem now ns name = some st →
      st.phase = .running →
      ∃ c, x.shared.row (podKey ns name) = some c ∧ x.shared.content.Holds c.cred) ∧
    (x.shared.phase = .up → ∀ e ∈ x.shared.ledger.running, x.shared.Finished e.2 ∨
      (cfg.lister = false ∧ DroppedExpired tr e.2) ∨
      ∃ token, ⟨e.2, token⟩ ∈ x.shared.ledger.issued ∧ x.shared.mem.all.Holds ⟨e.2, token⟩) ∧
    (cfg.lister → (machine cfg).Along SparesTracked (State.initial file) tr →
      (∀ ev x' pod, Step (machine cfg) x ev x' → notifiedRunning ev = some pod →
        ∃ c, x.shared.row pod.key = some c ∧ pod.annotations.lookup annClaimID = some c.id ∧
          x.shared.content.Holds c.cred) ∧
      (x.shared.phase = .up → ∀ e ∈ x.shared.ledger.running, x.shared.Finished e.2 ∨
        ∃ token, ⟨e.2, token⟩ ∈ x.shared.ledger.issued ∧ x.shared.mem.all.Holds ⟨e.2, token⟩)) := by
  have hd := h.durable hsp
  have hnotified : x.shared.phase = .up → ∀ e ∈ x.shared.ledger.running, x.shared.Finished e.2 ∨
      (cfg.lister = false ∧ DroppedExpired tr e.2) ∨
      ∃ token, ⟨e.2, token⟩ ∈ x.shared.ledger.issued ∧ x.shared.mem.all.Holds ⟨e.2, token⟩ := by
    intro hup e he
    refine (h.notified hsp e he).imp_right fun h' => h'.imp_right ?_
    rintro ⟨token, -, hsnap⟩
    have hall := Memory.holds_of_snapshot (hsnap hup)
    exact ⟨token, h.inv.issued x.shared.seen_mem hall, hall⟩
  have hrow : ∀ k c, x.shared.row k = some c → k ∉ x.shared.mem.tentative →
      x.shared.content.Holds c.cred := fun k c hk ht =>
    hd _ (Memory.holds_durable.mpr (.inl ⟨k, c, hk, ht, rfl⟩))
  refine ⟨⟨hrow, fun c hc => hd _ (Memory.holds_durable.mpr (.inr ⟨c, hc, rfl⟩))⟩, ?_, ?_,
    hnotified,
    fun hl hC => ⟨fun ev x' pod hs hev => h.running_held hsp hC hs hev, fun hup e he => ?_⟩⟩
  · intro ev x' pod hstep hev
    obtain ⟨hg, -⟩ := h.next hstep
    obtain ⟨t, rfl, hphase⟩ := notifiedRunning_eq_some hev
    obtain ⟨id, hid, hrg⟩ := hg.2.2.1 hphase
    simp only [runningEntry, hphase, if_true, Option.map_eq_some_iff, Prod.mk.injEq] at hid
    obtain ⟨id', hid', -, rfl⟩ := hid
    refine ⟨id', hid', (hrg.safe h.inv hd).imp_left ?_⟩
    rintro ⟨c, hc, he, hsafe⟩
    exact ⟨c, hc, he, hsafe.1⟩
  · intro now ns name st hst hphase
    obtain ⟨c, hc⟩ := claimFor_of_getPodStatus hst (by rw [hphase]; decide)
    obtain ⟨hs, hk⟩ := Memory.claimFor_eq_some.mp hc
    exact ⟨c, hk, hrow _ c hk (Memory.settled_eq_true.mp hs).1⟩
  · refine (hnotified hup e he).imp_right fun h' => h'.resolve_left fun hno => ?_
    rw [hno.1] at hl
    cases hl

/-- A sandbox notified Running is held again after a crash and a restart. -/
theorem credentials_durable_after_restart : ∃ tr x, Runs fullConfig .absent tr x ∧
    Event.crashed ∈ tr ∧ x.shared.phase = .up ∧ ("ns/p", "s1") ∈ x.shared.ledger.running ∧
    ∃ token, x.shared.mem.all.Holds ⟨"s1", token⟩ := by
  obtain ⟨tr, x, hrun, hC, hcrash, hup, hrunning, hrel, hlack⟩ := exists_run fullConfig .absent
    (call .boot .new 10 {} ++ call .controller .notifyPods 2 {} ++
      call (.lifecycle "ns/p") (.createPod (samplePod "p" "u1" [])) 18
        { claimed := .ok (sampleResult "s1") } ++
      .crash :: call .boot .new 14
        { file := .decoded (sampleFile "ns/p" (sampleClaim "s1" (samplePod "p" "u1" [])))
          listed := .error "down" })
    (fun tr s => (machine fullConfig).Along SparesTracked (State.initial .absent) tr ∧
      tr.any isCrash = true ∧ s.phase = .up ∧ ("ns/p", "s1") ∈ s.ledger.running ∧
      "s1" ∉ s.ledger.released ∧
      "s1" ∉ s.ledger.lacked)
    (by decide +kernel)
  obtain hf | ⟨token, -, h⟩ :=
    ((credentials_durable rfl hrun).2.2.2.2 rfl hC).2 hup ("ns/p", "s1") hrunning
  · exact absurd hf (not_or.mpr ⟨hrel, hlack⟩)
  · obtain ⟨ev, hev, he⟩ := List.any_eq_true.mp hcrash
    obtain rfl := isCrash_eq_true he
    exact ⟨tr, x, hrun, hev, hup, hrunning, token, h⟩

/-- A verification that began before `CreatePod` ends the row after its adoption: `CreatePod` saves
a table without it, and then notifies it Running, as if `the adopted credential is already
durable`. -/
theorem running_not_in_file : ∃ tr x ev x' pod,
    Runs fullConfig (.table (sampleFile "ns/p" (sampleClaim "s1" (samplePod "p" "u1" [])))) tr
      x ∧ Step (machine fullConfig) x ev x' ∧ notifiedRunning ev = some pod ∧
    pod.annotations.lookup annClaimID = some "s1" ∧ "s1" ∉ x.shared.content.ids := by
  obtain ⟨tr, x, ev, x', hrun, hstep, hev, hfile⟩ := exists_step fullConfig
    (.table (sampleFile "ns/p" (sampleClaim "s1" (samplePod "p" "u1" []))))
    (call .boot .new 14
        { file := .decoded (sampleFile "ns/p" (sampleClaim "s1" (samplePod "p" "u1" [])))
          listed := .error "down" } ++
      call .controller .notifyPods 2 {} ++ call (.verification 0) .claimVerification 2 {} ++
      call (.lifecycle "ns/p") (.createPod (samplePod "p" "u1" [])) 8
        { listed := .ok [sampleSummary "s1"] } ++
      steps (.verification 0) 2 {} ++ steps (.lifecycle "ns/p") 7 {})
    (.move (.lifecycle "ns/p") (World.reply {}))
    (fun _ s ev => (notifiedRunning ev).any
      (fun pod => decide (pod.annotations.lookup annClaimID = some "s1")) = true ∧
      "s1" ∉ s.content.ids)
    (by decide +kernel)
  cases hn : notifiedRunning ev with
  | none => rw [hn] at hev; cases hev
  | some pod =>
    rw [hn] at hev
    exact ⟨tr, x, ev, x', pod, hrun, hstep, hn, of_decide_eq_true hev, hfile⟩

end Results

end VkSandbox
