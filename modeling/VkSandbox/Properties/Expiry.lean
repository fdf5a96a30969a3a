import VkSandbox.Properties.Leases
import VkSandbox.Properties.Succession

/-!
# Properties/Expiry — an expiry and the key's next sandbox

    lease tick      … read (re-check: k is s)      │              notify Failed(k, s)
    queue of k                                     │ Running(k, s')
                                                   └─ a fresh claim recorded here is overtaken

The re-check and the callback are two steps.  A claim recorded between them is the only way in which
Failed of the old sandbox can come after Running of the new one; without it the last look of the
tick still speaks of the key's present (`Runs.no_successor`).
-/

namespace VkSandbox

open Interleave Interleave.Prog

variable {cfg : Config} {s s' : State} {t : Tid} {k : Key} {c : Claim} {pod p : Pod} {ev : Ev}
  {id id' : String} {l mid : List Entry}

/-! ## Which sandbox a Failed is about -/

/-- The claim a tick took as its candidate for `k`. -/
def candidateOf : List Entry → Key → Option Claim
  | (.asked _ .now now, _) :: (.read _, s) :: _, k => (s.mem.candidates now).lookup k
  | _, _ => none

/-- After `l`, the re-check at `s` found the candidate of `k` again, and `pod` tells of its
expiry. -/
structure Rechecked (P : Platform) (l : List Entry) (s : State) (k : Key) (c : Claim) (pod : Pod) :
    Prop where
  candidate : candidateOf l k = some c
  held : ∃ cur, s.row k = some cur ∧ cur.id = c.id
  published : ∃ p, s.mem.pods.lookup k = some p ∧ pod = expiredPod P p c

/-- What a notification comes after, with or without a lister. -/
def NoticeText (P : Platform) (t : Tid) (l : List Entry) (ev : Ev) (_ : State) : Prop :=
  match ev with
  | .asked _ (.notify pod) _ => ∃ (l₀ : List Entry) (s₁ s₂ : State) (k : Key) (c : Claim),
      l = l₀ ++ [(.read t, s₁), (.read t, s₂)] ∧ Rechecked P l₀ s₁ k c pod
  | _ => True

theorem notice_publishLoop {now : Time} (s₀ : State) {s₁ : State} (mid : List Entry)
    {live : Table String Time} {keys : List Key}
    (hl : l = [(.asked t .now now, s₀), (.read t, s₁)] ++ mid) :
    Text cfg t (NoticeText cfg.platform t) (fun _ _ => True)
      (publishLoop cfg (s₁.mem.candidates now) live keys) l := by
  subst hl
  refine (text_publishLoop (fun _ _ => trivial) (fun _ _ _ _ _ _ _ => trivial) ?_ keys mid).mono
    fun _ _ _ => trivial
  intro mid s₄ s₅ s k c cur p hc _ hcur hid hp
  exact ⟨_, s₄, s₅, k, c, rfl, hc, ⟨cur, hcur, hid⟩, p, hp, rfl⟩

theorem notice_publishExpiredLeases :
    Text cfg t (NoticeText cfg.platform t) (fun _ _ => True) (publishExpiredLeases cfg) [] := by
  unfold publishExpiredLeases
  refine Text.request fun now s₀ _ _ => ⟨trivial, ?_⟩
  refine Text.look fun s₁ => ⟨trivial, ?_⟩
  split
  · exact trivial
  split
  · refine Text.request fun order s₂ _ _ => ⟨trivial, notice_publishLoop s₀ ?_ ?_⟩
    · exact [(.asked t (.rangeOver _) order, s₂)]
    · simp
  · unfold sandboxes
    refine Text.request fun _ s₂ _ _ => ⟨trivial, Text.request fun r s₃ _ _ => ⟨trivial, ?_⟩⟩
    cases r with
    | error err => exact trivial
    | ok listed =>
      refine Text.request fun order s₄ _ _ => ⟨trivial, notice_publishLoop s₀ ?_ ?_⟩
      · exact [(.asked t .sendList (), s₂), (.asked t .sandboxes (.ok listed), s₃),
          (.asked t (.rangeOver _) order, s₄)]
      · simp

theorem notice_leaseWatch (cfg : Config) (n : ℕ) :
    Follows cfg (.leaseWatch n) (fun _ => NoticeText cfg.platform (.leaseWatch n))
      (fun _ _ _ => True) := by
  intro op s s' h
  obtain ⟨he, -⟩ | hm := mayCall_of_started h
  · cases he
  · cases op with
    | publishExpiredLeases =>
      exact Machine.Follows.call notice_publishExpiredLeases fun _ _ _ => trivial
    | _ => simp [mayCall] at hm

/-- **`ev` is the Failed notification of the sandbox `id` at `k`**: a tick sends it that took a
claim with that id as its candidate for `k` and found it again at its re-check. -/
def FailedFor (cfg : Config) (file : File) (tr : List Ev) (ev : Ev) (k : Key) (id : String) :
    Prop :=
  ∃ (n : ℕ) (pod : Pod) (l : List Entry) (s₁ s₂ : State) (c : Claim),
    notifiedExpired ev = some (.leaseWatch n, pod) ∧
    journal cfg file (.leaseWatch n) tr =
      l ++ [(.read (.leaseWatch n), s₁), (.read (.leaseWatch n), s₂)] ∧
    Rechecked cfg.platform l s₁ k c pod ∧ c.id = id

/-- The Running notification of a key and a sandbox. -/
def runningFor (ev : Ev) : Option (Key × String) := (notifiedRunning ev).bind runningEntry

/-- `k` was bound to `id'` after it had held `id`. -/
def BoundAfter (s : State) (k : Key) (id id' : String) : Prop :=
  id' ≠ id ∧ ∃ b ∈ s.ledger.bindings, b.key = k ∧ b.id = id' ∧
    ∃ i m c, i < b.instant ∧ s.memAt i = some m ∧ m.claims.lookup k = some c ∧ c.id = id

instance (s : State) (k : Key) (id id' : String) : Decidable (BoundAfter s k id id') :=
  decidable_of_iff (id' ≠ id ∧ ∃ b ∈ s.ledger.bindings, b.key = k ∧ b.id = id' ∧
    ∃ i ∈ List.range b.instant,
      ((s.memAt i).bind fun m => m.claims.lookup k).any (·.id = id) = true) <| by
    simp only [BoundAfter, List.mem_range, Option.any_eq_true, Option.bind_eq_some_iff,
      decide_eq_true_eq]
    refine and_congr_right fun _ => exists_congr fun b => and_congr_right fun _ =>
      and_congr_right fun _ => and_congr_right fun _ => exists_congr fun i => ?_
    constructor
    · rintro ⟨hlt, c, ⟨m, hm, hc⟩, hid⟩
      exact ⟨m, c, hlt, hm, hc, hid⟩
    · rintro ⟨m, c, hlt, hm, hc, hid⟩
      exact ⟨hlt, c, ⟨m, hm, hc⟩, hid⟩

theorem candidateOf_append (h : candidateOf l k = some c) : candidateOf (l ++ mid) k = some c := by
  unfold candidateOf at h
  split at h
  · exact h
  · cases h

/-- The sandbox a Failed notification is about, read off the tick's journal. -/
theorem FailedFor.eq_candidate {file : File} {tr : List Ev} {n : ℕ}
    (h : FailedFor cfg file tr ev k id) (hev : notifiedExpired ev = some (.leaseWatch n, pod))
    (hc : candidateOf (journal cfg file (.leaseWatch n) tr) k = some c) : id = c.id := by
  obtain ⟨n', pod', l, s₁, s₂, c', hev', hj, hre, rfl⟩ := h
  cases hev.symm.trans hev'
  rw [hj, candidateOf_append hre.candidate] at hc
  exact congrArg Claim.id (Option.some.inj hc)

/-! ## Between the re-check and the callback -/

/-- The next event of this program, or the one after its next look at the tables, notifies about
`k`. -/
def Notifying (p : Code Outcome) (k : Key) : Prop :=
  (∃ pod f, p = .ask (.notify pod) f ∧ pod.key = k) ∨
    ∃ g m pod f, p = .read g ∧ g m = .ask (.notify pod) f ∧ pod.key = k

section Results

variable {file : File} {tr : List Ev}
  {x x' : Interleave.Config State Memory Section Request Reply Tid Op Outcome}

/-- A lease tick has re-checked `k` and has not delivered its notification yet. -/
def AboutToFail (x : Interleave.Config State Memory Section Request Reply Tid Op Outcome)
    (k : Key) :
    Prop := ∃ n op p, x.tasks (.leaseWatch n) = some (op, p) ∧ Notifying p k

/-- **No `CreatePod` records a fresh claim at a key a lease tick is about to fail.** -/
def NoneOvertaken (cfg : Config) (file : File) (tr : List Ev) : Prop :=
  ∀ tr₁ ev tr₂ x₁, tr = tr₁ ++ ev :: tr₂ → Runs cfg file tr₁ x₁ →
    ∀ t k pod c, ev = .locked t (.insertClaim k pod c) → ¬ AboutToFail x₁ k

/-- Every Failed notification is about some sandbox. -/
theorem Runs.failedFor (h : Runs cfg file tr x) (hstep : Step (machine cfg) x ev x')
    (hev : notifiedExpired ev = some (t, pod)) : ∃ id, FailedFor cfg file tr ev pod.key id := by
  obtain ⟨rfl, hreason⟩ := notifiedExpired_eq_some hev
  obtain ⟨-, -, -, c₀, p₀, -, ⟨rfl, -⟩ | ⟨-, n, rfl⟩⟩ := (h.next hstep).1
  · simp [runningPod, runningStatus, reasonLeaseExpired] at hreason
  obtain ⟨-, -, l, s₁, s₂, k, c, hj, hre⟩ := h.asked (notice_leaseWatch cfg n) hstep
  obtain ⟨p, hp, rfl⟩ := hre.published
  have hmem : ((.read (.leaseWatch n), s₁) : Entry) ∈ journal cfg file (.leaseWatch n) tr := by
    rw [hj]
    simp
  have hkey : p.key = k := (h.entry_guard hmem).1.podKey hp
  subst hkey
  exact ⟨c.id, n, _, l, s₁, s₂, c, hev, hj, hre, rfl⟩

/-- From the instant `n` on `k` has had no other sandbox than `id`. -/
def OnlyFrom (s : State) (n : ℕ) (k : Key) (id : String) : Prop :=
  ∀ ⦃i m c⦄, n ≤ i → s.memAt i = some m → m.claims.lookup k = some c → c.id = id

/-- **A key gets no other sandbox while no fresh claim is recorded there.** -/
theorem Runs.onlyFrom {tr' : List Ev} (h : Runs cfg file tr x) (h' : Run (machine cfg) x tr' x')
    (hup : x.shared.phase = .up) (hno : ∀ ev ∈ tr', ev ≠ .crashed)
    (hins : ∀ ev ∈ tr', ∀ t pod c, ev ≠ .locked t (.insertClaim k pod c)) {n : ℕ}
    (hn : n ≤ x.shared.instant) (h₀ : OnlyFrom x.shared n k id) : OnlyFrom x'.shared n k id := by
  induction h' with
  | nil => exact h₀
  | @snoc tr₁ x₁ ev x₂ h₁ hs ih =>
    have hold := ih (fun ev hev => hno ev (List.mem_append_left _ hev))
      fun ev hev => hins ev (List.mem_append_left _ hev)
    have hrun : Runs cfg file (tr ++ tr₁) x₁ := Run.append h h₁
    have he : Evolves x.shared x₁.shared := h.evolves h₁ hup fun ev hev =>
      hno ev (List.mem_append_left _ hev)
    obtain ⟨hg, ha⟩ := hrun.next hs
    intro i m c hle hm hc
    obtain hm | ⟨t, a, rfl, rfl⟩ | ⟨-, rfl⟩ := (effect ha).memAt_back hm
    · exact hold hle hm hc
    · obtain ⟨c₀, hc₀, hedit⟩ | hcr := Section.row_edit hc
      · rw [hedit.same.id]
        exact hold (hn.trans he.instant) x₁.shared.memAt_instant hc₀
      · cases a with
        | load st now =>
          obtain ⟨hlive, rfl, -⟩ := hg
          exact absurd ((he.phase.trans hup).symm.trans hlive) (by decide)
        | insertClaim key pod c₁ =>
          obtain ⟨rfl, -⟩ := hcr
          exact absurd rfl (hins _ (by simp) t pod c₁)
        | _ => exact hcr.elim
    · simp at hc

/-- The stretch of a run in which a tick stays about to fail `k` records nothing there. -/
theorem NoneOvertaken.quiet {tr₁ tr₂ : List Ev} (hC : NoneOvertaken cfg file (tr ++ tr₁ ++ tr₂))
    (h : Runs cfg file tr x) (h' : Run (machine cfg) x tr₁ x') {n : ℕ}
    (hquiet : ∀ ev ∈ tr₁, ev.tid ≠ some (.leaseWatch n)) (hno : ∀ ev ∈ tr₁, ev ≠ (.crashed : Ev))
    {op : Op} {q : Code Outcome} (htask : x.tasks (.leaseWatch n) = some (op, q))
    (hq : Notifying q k) : ∀ ev ∈ tr₁, ∀ t pod c, ev ≠ .locked t (.insertClaim k pod c) := by
  rintro ev hev t pod c rfl
  obtain ⟨l₁, l₂, rfl⟩ := List.append_of_mem hev
  obtain ⟨y, -, hy, -, -⟩ := Run.split h'
  refine hC (tr ++ l₁) _ (l₂ ++ tr₂) y (by simp) (Run.append h hy) t k pod c rfl ⟨n, op, q, ?_, hq⟩
  rw [hy.tasks_quiet (fun ev hev => hquiet ev (List.mem_append_left _ hev))
    fun ev hev => hno ev (List.mem_append_left _ hev)]
  exact htask

/-- **The last look of a tick still speaks of the present** when it delivers its notification. -/
theorem Runs.no_successor (h : Runs cfg file tr x) (hC : NoneOvertaken cfg file tr)
    (hstep : Step (machine cfg) x ev x') (hfail : FailedFor cfg file tr ev k id) :
    ∃ n m c, n ≤ x.shared.instant ∧ x.shared.memAt n = some m ∧ m.claims.lookup k = some c ∧
      c.id = id ∧ OnlyFrom x.shared n k id := by
  obtain ⟨n, pod, l, s₁, s₂, c, hev, hj, hre, rfl⟩ := hfail
  obtain ⟨rfl, -⟩ := notifiedExpired_eq_some hev
  -- where the two looks stand in the run
  have hj₂ : journal cfg file (.leaseWatch n) tr =
      (l ++ [(.read (.leaseWatch n), s₁)]) ++ [(.read (.leaseWatch n), s₂)] := by simp [hj]
  obtain ⟨tr₂, trB, x₂, xB, rfl, h₂, rfl, hj₁, hs₂, hB, hresB, hquietB⟩ := h.last_entry hj₂
  obtain ⟨tr₁, trA, x₁, xA, rfl, h₁, rfl, -, hs₁, hA, hresA, hquietA⟩ := h₂.last_entry hj₁
  have hcrashA := not_crashed_of_resets hresA
  have hcrashB := not_crashed_of_resets hresB
  -- the tick stays about to notify
  obtain ⟨cur, hcur, hid⟩ := hre.held
  have hkey : pod.key = k := by
    obtain ⟨p, hp, rfl⟩ := hre.published
    have hpk : p.key = k := h₁.inv.podKey hp
    exact hpk
  have htaskB : ∃ op f, xB.tasks (.leaseWatch n) = some (op, .ask (.notify pod) f) := by
    rw [← hB.tasks_quiet hquietB hcrashB]
    cases hstep with
    | asked ht ha => exact ⟨_, _, ht⟩
  have htaskA : ∃ op q, xA.tasks (.leaseWatch n) = some (op, q) ∧ Notifying q k := by
    rw [← hA.tasks_quiet hquietA hcrashA]
    obtain ⟨op, f, htask⟩ := htaskB
    cases hs₂ with
    | @read _ op' g s ht ha =>
      simp only [Function.update_self, Option.some.injEq, Prod.mk.injEq] at htask
      exact ⟨op', _, ht, .inr ⟨g, _, pod, f, rfl, htask.2, hkey⟩⟩
  obtain ⟨opA, qA, htaskA, hqA⟩ := htaskA
  obtain ⟨opB, fB, htaskB⟩ := htaskB
  have hrunA : Runs cfg file (tr₁ ++ [.read (.leaseWatch n)]) xA := h₁.snoc hs₁
  have hrunB : Runs cfg file (tr₁ ++ .read (.leaseWatch n) :: trA ++ [.read (.leaseWatch n)]) xB :=
    h₂.snoc hs₂
  have hCA : NoneOvertaken cfg file
      (tr₁ ++ [.read (.leaseWatch n)] ++ trA ++ .read (.leaseWatch n) :: trB) := by simpa using hC
  have hCB : NoneOvertaken cfg file
      (tr₁ ++ .read (.leaseWatch n) :: trA ++ [.read (.leaseWatch n)] ++ trB ++ []) := by
    simpa using hC
  have hinsA := hCA.quiet hrunA hA hquietA hcrashA htaskA hqA
  have hinsB := hCB.quiet hrunB hB hquietB hcrashB htaskB (.inl ⟨pod, fB, rfl, hkey⟩)
  -- so nothing is recorded at `k` from the re-check on
  have hall : Run (machine cfg) x₁
      ([.read (.leaseWatch n)] ++ trA ++ ([.read (.leaseWatch n)] ++ trB)) x :=
    Run.append (Run.append (Run.nil.snoc hs₁) hA) (Run.append (Run.nil.snoc hs₂) hB)
  have hup : x₁.shared.phase = .up := (h₁.next hs₁).1
  have hcrash : ∀ ev ∈ [.read (.leaseWatch n)] ++ trA ++ ([.read (.leaseWatch n)] ++ trB),
      ev ≠ (.crashed : Ev) := by
    simp only [List.mem_append, List.mem_singleton]
    rintro ev ((rfl | hev) | rfl | hev)
    · intro he
      cases he
    · exact hcrashA ev hev
    · intro he
      cases he
    · exact hcrashB ev hev
  have hins : ∀ ev ∈ [.read (.leaseWatch n)] ++ trA ++ ([.read (.leaseWatch n)] ++ trB),
      ∀ t pod c, ev ≠ .locked t (.insertClaim k pod c) := by
    simp only [List.mem_append, List.mem_singleton]
    rintro ev ((rfl | hev) | rfl | hev)
    · intro t pod c he
      cases he
    · exact hinsA ev hev
    · intro t pod c he
      cases he
    · exact hinsB ev hev
  have he : Evolves x₁.shared x.shared := h₁.evolves hall hup hcrash
  refine ⟨x₁.shared.instant, x₁.shared.mem, cur, he.instant, he.memAt x₁.shared.memAt_instant, hcur,
    hid, h₁.onlyFrom hall hup hcrash hins le_rfl fun i m c' hle hm hc => ?_⟩
  obtain rfl : i = x₁.shared.instant := le_antisymm (State.memAt_le hm) hle
  obtain rfl := Option.some.inj (hm.symm.trans x₁.shared.memAt_instant)
  obtain rfl := Option.some.inj (hc.symm.trans hcur)
  exact hid

/-- A Running notification is of a sandbox its key has had, settled. -/
theorem Runs.running_seen (h : Runs cfg file tr x) (hstep : Step (machine cfg) x ev x')
    (hev : runningFor ev = some (k, id)) :
    ∃ m c, x.shared.Seen m ∧ m.claimFor k = some c ∧ c.id = id := by
  obtain ⟨pod, hpod, hentry⟩ := Option.bind_eq_some_iff.mp hev
  obtain ⟨t, rfl, hphase⟩ := notifiedRunning_eq_some hpod
  obtain ⟨id', hid', hrun⟩ := (h.next hstep).1.2.2.1 hphase
  cases hentry.symm.trans hid'
  exact hrun.seen

/-- A sandbox notified Running and bound after another has had its key, settled, after it. -/
theorem Runs.settled_after (h : Runs cfg file tr x) (hstep : Step (machine cfg) x ev x')
    (hev : runningFor ev = some (k, id')) (hafter : BoundAfter x.shared k id id') :
    ∃ i j m m' c c', i < j ∧ x.shared.memAt i = some m ∧ m.claims.lookup k = some c ∧ c.id = id ∧
      x.shared.memAt j = some m' ∧ m'.claimFor k = some c' ∧ c'.id = id' := by
  obtain ⟨-, b, hb, rfl, rfl, i, m, c, hlt, hm, hc, hid⟩ := hafter
  obtain ⟨m', c', hm', hc', hid'⟩ | hnew := h.grounded hb
  · exact ⟨i, b.instant, m, m', c, c', hlt, hm, hc, hid, hm', hc', hid'⟩
  · -- a new sandbox: whenever it was notified, it was bound before
    obtain ⟨m', c', ⟨j, hj⟩, hc', hid'⟩ := h.running_seen hstep hev
    refine ⟨i, j, m, m', c, c', hlt.trans_le ?_, hm, hc, hid, hj, hc', hid'⟩
    by_contra hlt'
    exact hnew (not_le.mp hlt') hj (Memory.claimFor_eq_some.mp hc').2 hid'

/-- **An expiry never lands on a successor**, in a run in which no `CreatePod` records a fresh claim
at a key that a lease tick has re-checked and is about to fail.  Every Failed notification is about
one sandbox; when it is delivered its key holds no other, and none that was bound there after it has
been notified Running. -/
theorem expiry_never_lands_on_successor (h : Runs cfg file tr x) (hC : NoneOvertaken cfg file tr)
    (hstep : Step (machine cfg) x ev x') (hev : notifiedExpired ev = some (t, pod)) :
    ∃ id, FailedFor cfg file tr ev pod.key id ∧
      (∀ c, x.shared.row pod.key = some c → c.id = id) ∧
      ∀ tr₁ ev₁ tr₂ x₁ id', tr = tr₁ ++ ev₁ :: tr₂ → Runs cfg file tr₁ x₁ →
        runningFor ev₁ = some (pod.key, id') → ¬ BoundAfter x₁.shared pod.key id id' := by
  obtain ⟨id, hfail⟩ := h.failedFor hstep hev
  obtain ⟨n, m₀, c₀, hn, hm₀, hc₀, hid₀, honly⟩ := h.no_successor hC hstep hfail
  refine ⟨id, hfail, fun c hc => honly hn x.shared.memAt_instant hc, ?_⟩
  rintro tr₁ ev₁ tr₂ x₁ id' rfl h₁ hrun hafter
  obtain ⟨y₁, y₂, hy₁, hs₁, hy₂⟩ := Run.split h
  have hsame : x₁.shared = y₁.shared := Run.shared_eq h₁ hy₁
  rw [hsame] at hafter
  obtain ⟨i, j, m, m', c, c', hlt, hm, hc, hid, hm', hc', hid'⟩ :=
    Runs.settled_after hy₁ hs₁ hrun hafter
  obtain ⟨hset, hrow'⟩ := Memory.claimFor_eq_some.mp hc'
  have hlater : Run (machine cfg) y₁ (ev₁ :: tr₂) x := Run.append (Run.nil.snoc hs₁) hy₂
  have hne : c'.id ≠ id := hid' ▸ hafter.1
  -- from the successor's settled version on the old sandbox is gone, but the tick has seen it since
  obtain ⟨n', hle, hgone⟩ := h.handed hlt (memAt_run hlater hm) hc (memAt_run hlater hm') hrow'
    (Memory.settled_eq_true.mp hset).1 (hid ▸ hne)
  have hbefore : n < n' := by
    by_contra hge
    exact hgone.seen (not_lt.mp hge) hm₀ hc₀ rfl (hid₀.trans hid.symm)
  exact hne (honly (hbefore.le.trans hle) (memAt_run hlater hm') hrow')

/-- An event that begins a lease tick. -/
def startsTick : Ev → Bool
  | .started (.leaseWatch _) _ => true
  | _ => false

/-- An event that records a fresh claim. -/
def recordsClaim : Ev → Bool
  | .locked _ (.insertClaim _ _ _) => true
  | _ => false

/-- No fresh claim is recorded once a lease tick has begun. -/
def tickFree : List Ev → Bool
  | [] => true
  | ev :: rest => (!startsTick ev || rest.all fun ev => !recordsClaim ev) && tickFree rest

theorem tickFree_split {tr₁ tr₂ : List Ev} (h : tickFree (tr₁ ++ ev :: tr₂) = true)
    (hev : recordsClaim ev = true) : ∀ ev' ∈ tr₁, startsTick ev' = false := by
  induction tr₁ with
  | nil => exact fun _ hev => by cases hev
  | cons ev₀ tr₁ ih =>
    simp only [List.cons_append, tickFree, Bool.and_eq_true, Bool.or_eq_true, Bool.not_eq_true',
      List.all_append, List.all_cons, hev] at h
    intro ev' hev'
    rcases List.mem_cons.mp hev' with rfl | hev'
    · obtain hno | ⟨-, hno, -⟩ := h.1
      · exact hno
      · cases hno
    · exact ih h.2 ev' hev'

theorem NoneOvertaken.of_tickFree (h : tickFree tr = true) : NoneOvertaken cfg file tr := by
  rintro tr₁ ev tr₂ x₁ rfl h₁ t k pod c rfl ⟨n, op, p, htask, -⟩
  have hidle : x₁.tasks (.leaseWatch n) = none := Run.tasks_not_started h₁ fun op hop => by
    have hno := tickFree_split h rfl _ hop
    cases hno
  rw [hidle] at htask
  cases htask

/-- A run with an expiry in which nothing is overtaken. -/
theorem expiry_never_lands_on_successor_of_lapsed_lease :
    ∃ tr x ev x' pod, Runs statelessConfig .absent tr x ∧ NoneOvertaken statelessConfig .absent tr ∧
      Step (machine statelessConfig) x ev x' ∧ notifiedExpired ev = some (.leaseWatch 0, pod) ∧
      ∃ id, FailedFor statelessConfig .absent tr ev pod.key id ∧
        ∀ c, x.shared.row pod.key = some c → c.id = id := by
  obtain ⟨tr, x, ev, x', h, hstep, hfree, hev⟩ := exists_step statelessConfig .absent lapsedLease
    (.move (.leaseWatch 0) (World.reply {}))
    (fun tr _ ev => tickFree tr = true ∧ (notifiedExpired ev).any (·.1 = .leaseWatch 0) = true)
    (by decide +kernel)
  obtain ⟨⟨t, pod⟩, hn, ht⟩ := (Option.any_eq_true _ _).mp hev
  obtain rfl : t = .leaseWatch 0 := of_decide_eq_true ht
  have hC : NoneOvertaken statelessConfig .absent tr := .of_tickFree hfree
  obtain ⟨id, hfail, hrow, -⟩ := expiry_never_lands_on_successor h hC hstep hn
  exact ⟨tr, x, ev, x', pod, h, hC, hstep, hn, id, hfail, hrow⟩

/-- The lease of `s1` ends and a tick re-checks it; then its Pod is deleted and another created. -/
def overtaken : Schedule :=
  call .boot .new 10 {} ++
  call .controller .notifyPods 2 {} ++
  call (.lifecycle "ns/p") (.createPod (samplePod "p" "uid-1" [])) 18
    { claimed := .ok { sampleResult "s1" with deadline := 6 * second } } ++
  call (.leaseWatch 0) .publishExpiredLeases 6 { now := 9 * second, order := ["ns/p"] } ++
  call (.lifecycle "ns/p") (.deletePod (samplePod "p" "uid-1" [])) 12 {} ++
  call (.lifecycle "ns/p") (.createPod (samplePod "p" "uid-2" [])) 16
    { claimed := .ok (sampleResult "s2") }

/-- **Failed of the old sandbox after Running of the new one.** -/
theorem expiry_lands_on_successor : ∃ tr₁ x₁ ev₁ tr₂ x ev x',
    Runs fullConfig .absent tr₁ x₁ ∧ Runs fullConfig .absent (tr₁ ++ ev₁ :: tr₂) x ∧
    Step (machine fullConfig) x ev x' ∧ runningFor ev₁ = some ("ns/p", "s2") ∧
    BoundAfter x₁.shared "ns/p" "s1" "s2" ∧
    FailedFor fullConfig .absent (tr₁ ++ ev₁ :: tr₂) ev "ns/p" "s1" := by
  obtain ⟨tr₁, x₁, ev₁, tr₂, x, ev, x', h₁, h, hstep, hrun, hafter, hev, hc⟩ :=
    exists_two_steps fullConfig .absent overtaken (.move (.lifecycle "ns/p") (World.reply {}))
      (steps (.leaseWatch 0) 1 {}) (.move (.leaseWatch 0) (World.reply {}))
      (fun _ s₁ ev₁ tr _ ev => runningFor ev₁ = some ("ns/p", "s2") ∧
        BoundAfter s₁ "ns/p" "s1" "s2" ∧
        (notifiedExpired ev).any (fun e => e.1 = .leaseWatch 0 ∧ e.2.key = "ns/p") = true ∧
        (candidateOf (journal fullConfig .absent (.leaseWatch 0) tr) "ns/p").any
          (·.id = "s1") = true)
      (by decide +kernel)
  obtain ⟨⟨t, pod⟩, hn, ht⟩ := (Option.any_eq_true _ _).mp hev
  obtain ⟨rfl, hkey⟩ := of_decide_eq_true ht
  obtain ⟨c, hcand, hid⟩ := (Option.any_eq_true _ _).mp hc
  obtain ⟨id, hfail⟩ := h.failedFor hstep hn
  rw [hkey] at hfail
  obtain rfl : id = "s1" := (hfail.eq_candidate hn hcand).trans (of_decide_eq_true hid)
  exact ⟨tr₁, x₁, ev₁, tr₂, x, ev, x', h₁, h, hstep, hrun, hafter, hfail⟩

end Results

end VkSandbox
