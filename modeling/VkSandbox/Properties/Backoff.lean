import VkSandbox.Properties.Preservation
import VkSandbox.Properties.Rechecks

/-!
# Properties/Backoff — one backoff per preservation

When a `DeletePod` preserves a claim, the owner re-check is to ask about its owner at the next tick,
and then after `base`, `2 * base`, `4 * base` … and never later than ten minutes after the last
time:

    preserve ── q₁ ──▸ base ──▸ q₂ ──▸ 2·base ──▸ q₃ ──▸ …

The provider keeps that schedule in a map of its own, keyed by the pod key and not by the
preservation.  `queries` is the history the schedule is about; here the map is shown to agree with
it, as long as no preservation finds an entry of an earlier one.  Who the schedule is for is said
without the map too: a claim that was settled when a `DeletePod` preserved it, until it is withdrawn
or adopted (`Waiting`).
-/

namespace VkSandbox

open Interleave Interleave.Prog

/-! ## The schedule -/

/-- The delay after a query with `n` queries before it. -/
def delayAfter (base n : ℕ) : ℕ := min (base * 2 ^ n) ownerRecheckMaxDelay

theorem min_double_delayAfter (base n : ℕ) :
    min (2 * delayAfter base n) ownerRecheckMaxDelay = delayAfter base (n + 1) := by
  unfold delayAfter
  rw [pow_succ, ← mul_assoc]
  omega

/-- Whether an owner last asked about at the head of `hist` is due. -/
def dueAt (base : ℕ) : List Time → Time → Bool
  | [], _ => true
  | q :: rest, now => q + delayAfter base rest.length ≤ now

/-- The backoff entry that stands for a history. -/
def backoffFor (base : ℕ) : List Time → Option OwnerRecheck
  | [] => none
  | q :: rest => some ⟨q + delayAfter base rest.length, delayAfter base rest.length⟩

section Schedule

variable {base : ℕ} {hist : List Time} {now : Time}

theorem dueAt_iff : dueAt base hist now ↔ ∀ e, backoffFor base hist = some e → e.due ≤ now := by
  cases hist with
  | nil => simp [dueAt, backoffFor]
  | cons q rest => simp [dueAt, backoffFor]

/-- **A query adds to the history what it sets in the map.** -/
theorem nextRecheck_backoffFor (hb : base ≤ ownerRecheckMaxDelay) :
    some (nextRecheck now base (backoffFor base hist)) = backoffFor base (now :: hist) := by
  have hd : nextDelay base (backoffFor base hist) = delayAfter base hist.length := by
    cases hist with
    | nil => simp [nextDelay, backoffFor, delayAfter, hb]
    | cons q rest => exact min_double_delayAfter base rest.length
  rw [nextRecheck, hd]
  rfl

end Schedule

/-! ## The history of queries -/

/-- Every tick uses the same base. -/
def FixedBase (base : ℕ) (tr : List Ev) : Prop :=
  ∀ now b, .started .ownerRecheck (.recheckOwners now b) ∈ tr → b = base

theorem FixedBase.left {base : ℕ} {tr tr' : List Ev} (h : FixedBase base (tr ++ tr')) :
    FixedBase base tr := fun now b hm => h now b (List.mem_append_left _ hm)

/-- The base of the tick an event begins. -/
def tickBase : Ev → Option ℕ
  | .started .ownerRecheck (.recheckOwners _ b) => some b
  | _ => none

instance (base : ℕ) (tr : List Ev) : Decidable (FixedBase base tr) :=
  decidable_of_iff (∀ ev ∈ tr, ∀ b ∈ tickBase ev, b = base) (by
    refine ⟨fun h _ b hm => h _ hm b rfl, fun h ev hm b hb => ?_⟩
    unfold tickBase at hb
    split at hb
    · cases hb
      exact h _ _ hm
    · cases hb)

/-- The time of the tick in progress. -/
def tickTime (s : State) : Time :=
  match s.ledger.calls .ownerRecheck with
  | some (_, .recheckOwners now _) => now
  | _ => 0

/-- What an event adds to the history of `k`: a preservation begins it anew, a query is noted with
the time of its tick. -/
def noteQuery (k : Key) (hist : List Time) (e : Entry) : List Time :=
  if preservesAt k e.1 || isCrash e.1 then []
  else if setsBackoff e.1 = some k then tickTime e.2 :: hist else hist

/-- **The queries about the owner of `k` since it was last preserved**, newest first. -/
def queries (cfg : Config) (file : File) (k : Key) (tr : List Ev) : List Time :=
  (machine cfg).history (noteQuery k) [] (State.initial file) tr

variable {cfg : Config} {now : Time} {base : ℕ} {k : Key} {c c' cur : Claim} {ev : Ev}
  {s s' : State} {t : Tid} {l l₁ l₂ : List Entry}

/-- An event that may change the backoff of `k`. -/
def touchesBackoff (k : Key) : Ev → Bool
  | .locked _ (.setRecheck key _) => key = k
  | .locked _ (.pruneRechecks keep) => k ∉ keep
  | _ => false

/-- Only the re-check itself touches the backoff. -/
theorem rechecks_run {a : Section} (h : touchesBackoff k (.locked t a) = false) (m : Memory) :
    (a.run m).ownerRechecks.lookup k = m.ownerRechecks.lookup k := by
  obtain ⟨he | ⟨keep, rfl⟩ | ⟨key, r, rfl⟩, -⟩ := Section.owned_run a m
  · rw [he]
  · have hk : k ∈ keep := by simpa [touchesBackoff] using h
    simp [Section.run, hk]
  · have hk : k ≠ key := by simpa [touchesBackoff, eq_comm] using h
    cases r with
    | none => exact Finmap.lookup_erase_ne hk
    | some r => exact Finmap.lookup_insert_of_ne _ hk

/-- The backoff of `k` after any event of a process that goes on. -/
theorem Guard.backoff_same (hg : Guard cfg ev s) (ha : apply ev s = some s') (hup : s.phase = .up)
    (hcrash : isCrash ev = false) (h : touchesBackoff k ev = false) :
    s'.mem.ownerRechecks.lookup k = s.mem.ownerRechecks.lookup k := by
  obtain ⟨hm, -⟩ | ⟨t, a, rfl, hm, -⟩ | ⟨hend, -⟩ := (effect ha).tables
  · rw [hm]
  · rw [hm]
    exact rechecks_run h s.mem
  · have hb := booting_of_ends hend hg (by rintro rfl; cases hcrash)
    exact absurd (hup.symm.trans hb) (by decide)

/-- An event that touches the backoff is the re-check's own. -/
theorem Guard.tid_of_touches (hg : Guard cfg ev s) (h : touchesBackoff k ev) :
    ev.tid = some .ownerRecheck := by
  cases ev with
  | locked t a =>
    cases a with
    | pruneRechecks keep => exact congrArg some hg.2
    | setRecheck key r => exact congrArg some hg.2
    | _ => cases h
  | _ => cases h

theorem setsBackoff_eq_some (hg : Guard cfg ev s) (h : setsBackoff ev = some k) :
    ∃ r, ev = .locked .ownerRecheck (.setRecheck k r) := by
  cases ev with
  | locked t a =>
    cases a with
    | setRecheck key r =>
      cases h
      obtain rfl : t = .ownerRecheck := hg.2
      exact ⟨r, rfl⟩
    | _ => cases h
  | _ => cases h

theorem touches_of_setsBackoff (h : setsBackoff ev = some k) : touchesBackoff k ev := by
  cases ev with
  | locked t a =>
    cases a with
    | setRecheck key r => cases h; simp [touchesBackoff]
    | _ => cases h
  | _ => cases h

/-- Short of a new value, it is a pruning. -/
theorem prunes_of_touches (hg : Guard cfg ev s) (h : touchesBackoff k ev)
    (hset : setsBackoff ev ≠ some k) : ∃ keep, ev = .locked .ownerRecheck (.pruneRechecks keep) ∧
      k ∉ keep := by
  cases ev with
  | locked t a =>
    cases a with
    | pruneRechecks keep =>
      obtain rfl : t = .ownerRecheck := hg.2
      exact ⟨keep, rfl, of_decide_eq_true h⟩
    | setRecheck key r =>
      obtain rfl : key = k := of_decide_eq_true h
      exact absurd rfl hset
    | _ => cases h
  | _ => cases h

/-- The row of `k` is kept for an owner, without a Pod. -/
structure Kept (s : State) (k : Key) (c : Claim) : Prop where
  row : s.row k = some c
  owner : c.owner.isSome
  podless : s.mem.pods.lookup k = none

theorem Kept.back (h : Kept s' k c') (hg : Guard cfg ev s) (ha : apply ev s = some s')
    (hup : s.phase = .up) (hno : preservesAt k ev = false) :
    ∃ c, Kept s k c ∧ c'.id = c.id ∧ (s.mem.settled k → s'.mem.settled k) := by
  obtain ⟨c, d, hc, hp, rfl, hset⟩ := hg.podless_back ha hup hno h.row h.podless
  exact ⟨c, ⟨hc, h.owner, hp⟩, rfl, hset⟩

theorem mem_keys_of_lookup {rows : Table Key Claim} (h : rows.lookup k = some c) : k ∈ rows.keys :=
  Finmap.mem_keys.mpr (Finmap.lookup_isSome.mp (Option.isSome_iff_exists.mpr ⟨c, h⟩))

theorem Kept.preserved (h : Kept s k c) (hs : s.mem.settled k) :
    s.mem.preserved.lookup k = some c :=
  Memory.lookup_preserved.mpr ⟨h.row, h.owner, h.podless, hs⟩

section Results

variable {file : File} {tr : List Ev}
  {x x' : Interleave.Config State Memory Section Request Reply Tid Op Outcome}

theorem Runs.queries_snoc (h : Runs cfg file tr x) (hs : Step (machine cfg) x ev x') (k : Key) :
    queries cfg file k (tr ++ [ev]) = noteQuery k (queries cfg file k tr) (ev, x.shared) :=
  Run.history_snoc h hs []

/-! ## While a pass is under way -/

/-- **A preservation at `k` begins afresh, and stays in sight**: no backoff of an earlier one is
left, no pass in progress has the key in its snapshot, and no `UpdatePod` brings a Pod to the claim
it kept. -/
structure FreshBackoff (cfg : Config) (file : File) (k : Key) (tr : List Ev) (s : State) (ev : Ev) :
    Prop where
  fresh : preservesAt k ev = true → s.mem.ownerRechecks.lookup k = none ∧
    (passRows (journal cfg file .ownerRecheck tr)).lookup k = none
  spares : SparesKept k s ev

instance (cfg : Config) (file : File) (k : Key) (tr : List Ev) (s : State) (ev : Ev) :
    Decidable (FreshBackoff cfg file k tr s ev) :=
  decidable_of_iff ((preservesAt k ev = true → s.mem.ownerRechecks.lookup k = none ∧
      (passRows (journal cfg file .ownerRecheck tr)).lookup k = none) ∧ SparesKept k s ev)
    ⟨fun h => ⟨h.1, h.2⟩, fun h => ⟨h.fresh, h.spares⟩⟩

/-- A row that a pass knows and that is still kept is the very claim it knows, and still settled;
the pass has not just withdrawn it. -/
theorem Runs.pass_kept (h : Runs cfg file tr x)
    (hC : Throughout cfg file (FreshBackoff cfg file k) tr)
    (hrow : (passRows (journal cfg file .ownerRecheck tr)).lookup k = some c)
    (hkept : Kept x.shared k cur) : cur.id = c.id ∧ x.shared.mem.settled k ∧
      ∀ l s, journal cfg file .ownerRecheck tr ≠
        l ++ [(.locked .ownerRecheck (.withdrawForRelease k c), s)] := by
  refine h.induct_journal (t := .ownerRecheck) nofun hC
    (J := fun l s => (passRows l).lookup k = some c →
    ∀ cur, Kept s k cur → cur.id = c.id ∧ s.mem.settled k ∧
      ∀ l₀ s₀, l ≠ l₀ ++ [(.locked .ownerRecheck (.withdrawForRelease k c), s₀)])
    (fun s hrow => by cases hrow) ?_ ?_ hrow cur hkept
  · intro tr x ev x' h hs _ hup htid ih hrow cur hkept
    obtain ⟨hg, ha⟩ := h.next hs
    have hno : preservesAt k ev = false := by
      by_contra hpres
      obtain ⟨t, id, owner, rfl⟩ := preservesAt_eq_true (by simpa using hpres)
      cases htid
      cases hg.2.1
    obtain ⟨cur₀, hkept₀, hid, hset⟩ := hkept.back hg ha hup hno
    -- the look itself finds the claim it knows; later entries come after it
    have hold : cur₀.id = c.id ∧ x.shared.mem.settled k := by
      by_cases hnil : journal cfg file .ownerRecheck tr = []
      · rw [hnil] at hrow
        obtain ⟨hc, -, -, hsc⟩ := Memory.lookup_preserved.mp hrow
        obtain rfl : cur₀ = c := Option.some.inj (hkept₀.row.symm.trans hc)
        exact ⟨rfl, hsc⟩
      · rw [passRows_append hnil] at hrow
        obtain ⟨hid₀, hs₀, -⟩ := ih hrow cur₀ hkept₀
        exact ⟨hid₀, hs₀⟩
    refine ⟨hid.trans hold.1, hset hold.2, fun l₀ s₀ hl => ?_⟩
    obtain ⟨-, he⟩ := List.append_inj' hl rfl
    cases he
    -- a claim it withdraws is gone
    have hrow' := hkept.row
    rw [← Option.some.inj ha] at hrow'
    have hgone := (Memory.row_withdrawForRelease.mp hrow').2
    exact hgone ⟨rfl, Memory.withdrawable_iff.mpr ⟨cur₀, hkept₀.row, hold.1, hkept₀.podless⟩⟩
  · intro tr x ev x' h hs hc hup _ _ ih hrow cur hkept
    obtain ⟨hg, ha⟩ := h.next hs
    have hno : preservesAt k ev = false := by
      by_contra hpres
      rw [(hc.fresh (by simpa using hpres)).2] at hrow
      cases hrow
    obtain ⟨cur₀, hkept₀, hid, hset⟩ := hkept.back hg ha hup hno
    obtain ⟨hid₀, hs₀, hlast⟩ := ih hrow cur₀ hkept₀
    exact ⟨hid.trans hid₀, hset hs₀, hlast⟩

/-- **The backoff stays as a pass last left it.** -/
theorem Runs.backoff_since (h : Runs cfg file tr x)
    (hj : journal cfg file .ownerRecheck tr = l₁ ++ (ev, s) :: l₂)
    (hno : ∀ e ∈ (ev, s) :: l₂, touchesBackoff k e.1 = false) :
    x.shared.mem.ownerRechecks.lookup k = s.mem.ownerRechecks.lookup k := by
  have hj' : (machine cfg).journal .ownerRecheck [] (State.initial file) tr = l₁ ++ (ev, s) :: l₂ :=
    hj
  refine Run.journal_keeps (f := fun s => s.mem.ownerRechecks.lookup k)
    (T := fun ev => touchesBackoff k ev = true) h ?_ ?_ hj' fun e he => by simp [hno e he]
  · intro tr x ev x' h hs htid hres hno
    have hrun : Runs cfg file tr x := h
    obtain ⟨hg, ha⟩ := hrun.next hs
    obtain ⟨hb, -⟩ | ⟨-, hup⟩ := hg.up_or_booting ha htid
    · cases hb
    · refine hg.backoff_same ha hup ?_ (by simpa using hno)
      cases ev with
      | crashed => cases htid
      | _ => rfl
  · intro tr x ev x' h hs htid hres hne
    have hrun : Runs cfg file tr x := h
    obtain ⟨hg, ha⟩ := hrun.next hs
    refine hg.backoff_same ha (hrun.up_of_journal (t := .ownerRecheck) nofun hne) ?_ ?_
    · cases ev with
      | crashed => exact absurd trivial hres
      | _ => rfl
    · by_contra htouch
      exact htid (hg.tid_of_touches (by simpa using htouch))

/-! ## The map agrees with the history -/

/-- **What the backoff of `k` is**, as long as its claim is kept. -/
structure Scheduled (cfg : Config) (file : File) (base : ℕ) (k : Key) (tr : List Ev) (s : State) :
    Prop where
  idle : s.phase ≠ .up → queries cfg file k tr = [] ∧ s.mem.ownerRechecks.lookup k = none
  backoff : ∀ {c}, Kept s k c →
    s.mem.ownerRechecks.lookup k = backoffFor base (queries cfg file k tr)
  settled : ∀ {c}, Kept s k c → queries cfg file k tr ≠ [] → s.mem.settled k
  /-- A key asked about before is in the snapshot of a pass that has just begun. -/
  known : ∀ {c s₀}, journal cfg file .ownerRecheck tr = [(.read .ownerRecheck, s₀)] → Kept s k c →
    queries cfg file k tr ≠ [] → k ∈ s₀.mem.preserved.keys

/-- What a pass knows when it sets a backoff. -/
theorem Runs.backoff_set (h : Runs cfg file tr x) {r : Option OwnerRecheck}
    (hstep : Step (machine cfg) x (.locked .ownerRecheck (.setRecheck k r)) x') :
    ∃ now base, InCall x .ownerRecheck (.recheckOwners now base) ∧
      RecheckText cfg (.recheckOwners now base) (journal cfg file .ownerRecheck tr)
        (.locked .ownerRecheck (.setRecheck k r)) x.shared := by
  obtain ⟨op, hop, htext⟩ := h.locked (follows_ownerRecheck cfg) hstep
  cases op with
  | recheckOwners now base => exact ⟨now, base, hop, htext⟩
  | _ => exact htext.elim

theorem Runs.pruned (h : Runs cfg file tr x) {keep : Finset Key}
    (hstep : Step (machine cfg) x (.locked .ownerRecheck (.pruneRechecks keep)) x') :
    ∃ s₀, journal cfg file .ownerRecheck tr = [(.read .ownerRecheck, s₀)] ∧
      keep = s₀.mem.preserved.keys := by
  obtain ⟨op, -, htext⟩ := h.locked (follows_ownerRecheck cfg) hstep
  cases op with
  | recheckOwners now base => exact htext
  | _ => exact htext.elim

theorem Runs.tickTime_inCall (h : Runs cfg file tr x)
    (hop : InCall x .ownerRecheck (.recheckOwners now base)) : tickTime x.shared = now := by
  obtain ⟨n, hn⟩ := h.calls_inCall hop
  simp [tickTime, hn]

/-- An owner that can be read is read. -/
theorem Inquiry.ownerAsked_of_readable {next : OwnerRecheck} {mid : List Entry}
    {r : Option OwnerRecheck} (h : Inquiry cfg k c next mid r) (hread : Readable cfg c) :
    OwnerAsked k mid := by
  cases h with
  | unreadable hno => exact absurd hread hno
  | preserved hr => exact ⟨_, List.mem_cons_self, hr⟩
  | released hr => exact ⟨_, List.mem_cons_self, hr⟩

theorem Inquiry.not_touches {next : OwnerRecheck} {mid : List Entry} {r : Option OwnerRecheck}
    (h : Inquiry cfg k c next mid r) : ∀ e ∈ mid, touchesBackoff k e.1 = false := by
  have hread : ∀ {e : Entry}, readsOwner e.1 = some k → touchesBackoff k e.1 = false := by
    rintro ⟨ev, s⟩ hr
    cases ev with
    | asked u e r => rfl
    | _ => cases hr
  intro e he
  cases h with
  | unreadable => cases he
  | preserved hr =>
    obtain rfl := List.mem_singleton.mp he
    exact hread hr
  | released hr =>
    rcases List.mem_cons.mp he with rfl | he
    · exact hread hr
    · obtain rfl := List.mem_singleton.mp he
      rfl

namespace Scheduled

/-- Before the process is up, and when it dies, there is nothing to remember. -/
theorem of_empty (hq : queries cfg file k tr = []) (hm : s.mem.ownerRechecks.lookup k = none) :
    Scheduled cfg file base k tr s where
  idle := fun _ => ⟨hq, hm⟩
  backoff := fun _ => by rw [hm, hq]; rfl
  settled := fun _ hne => absurd hq hne
  known := fun _ _ hne => absurd hq hne

/-- Before the process is up nobody asks. -/
theorem step_down (h : Scheduled cfg file base k tr x.shared) (hrun : Runs cfg file tr x)
    (hs : Step (machine cfg) x ev x') (hdown : x.shared.phase ≠ .up) :
    Scheduled cfg file base k (tr ++ [ev]) x'.shared := by
  obtain ⟨hg, ha⟩ := hrun.next hs
  obtain ⟨hq, hm⟩ := h.idle hdown
  have htouch : touchesBackoff k ev = false := by
    by_contra htouch
    obtain ⟨hb, -⟩ | ⟨-, hup⟩ := hg.up_or_booting ha (hg.tid_of_touches (by simpa using htouch))
    · cases hb
    · exact hdown hup
  refine .of_empty ?_ ?_
  · rw [hrun.queries_snoc hs, noteQuery, hq]
    split
    · rfl
    · split
      · next hset => simp [touches_of_setsBackoff hset] at htouch
      · rfl
  · obtain ⟨he, -⟩ | ⟨t, a, rfl, he, -⟩ | ⟨-, he, -⟩ := (effect ha).tables
    · rw [he]
      exact hm
    · rw [he, rechecks_run htouch]
      exact hm
    · rw [he]
      rfl

/-- **A query is set in the map as it is noted in the history.** -/
theorem step_set (h : Scheduled cfg file base k tr x.shared) (hrun : Runs cfg file tr x)
    (hb : base ≤ ownerRecheckMaxDelay)
    (hbase : FixedBase base tr)
    (hC : Throughout cfg file (FreshBackoff cfg file k) tr) {r : Option OwnerRecheck}
    (hs : Step (machine cfg) x (.locked .ownerRecheck (.setRecheck k r)) x') :
    Scheduled cfg file base k (tr ++ [.locked .ownerRecheck (.setRecheck k r)]) x'.shared := by
  obtain ⟨hg, ha⟩ := hrun.next hs
  have hup : x.shared.phase = .up := hg.1
  obtain ⟨now, b, hop, hnew, pre, sr, mid, c, hj, hrow, hdue, hinq⟩ := hrun.backoff_set hs
  obtain rfl : b = base := hbase now b (hrun.started_inCall hop)
  have hq : queries cfg file k (tr ++ [.locked .ownerRecheck (.setRecheck k r)])
      = now :: queries cfg file k tr := by
    rw [hrun.queries_snoc hs, noteQuery, hrun.tickTime_inCall hop]
    simp [preservesAt, isCrash, setsBackoff]
  have hpass : (passRows (journal cfg file .ownerRecheck tr)).lookup k = some c := by
    rw [hj, passRows_append (ne_nil_of_passRows hrow)]
    exact hrow
  have hback : ∀ {c'}, Kept x'.shared k c' → ∃ c₀, Kept x.shared k c₀ ∧
      (x.shared.mem.settled k → x'.shared.mem.settled k) := fun hk => by
    obtain ⟨c₀, hk₀, -, hset⟩ := hk.back hg ha hup rfl
    exact ⟨c₀, hk₀, hset⟩
  have hsame : x.shared.mem.ownerRechecks.lookup k = sr.mem.ownerRechecks.lookup k := by
    refine hrun.backoff_since hj fun e he => ?_
    rcases List.mem_cons.mp he with rfl | he
    · rfl
    · exact hinq.not_touches e he
  refine ⟨fun hdown => ?_, fun {c'} hk => ?_, fun {c'} hk _ => ?_, fun {c' s₀} hj' => ?_⟩
  · rw [← Option.some.inj ha] at hdown
    exact absurd hup hdown
  · obtain ⟨c₀, hk₀, -⟩ := hback hk
    rw [hq, ← nextRecheck_backoffFor hb, ← h.backoff hk₀, hsame, ← Option.some.inj ha]
    cases hinq with
    | unreadable => exact Finmap.lookup_insert _
    | preserved => exact Finmap.lookup_insert _
    | @released e s₂ hr =>
      -- the claim has just been withdrawn
      refine absurd ?_
        ((hrun.pass_kept hC hpass hk₀).2.2 (pre ++ [(.read .ownerRecheck, sr), e]) s₂)
      rw [hj]
      simp
  · obtain ⟨c₀, hk₀, hset⟩ := hback hk
    exact hset (hrun.pass_kept hC hpass hk₀).2.1
  · have hsnoc : journal cfg file .ownerRecheck (tr ++ [.locked .ownerRecheck (.setRecheck k r)])
        = _ :=
      Run.journal_snoc hrun hs []
    rw [hsnoc, note_of_tid rfl id] at hj'
    have hlen := congrArg List.length hj'
    have hne := List.length_pos_of_ne_nil (ne_nil_of_passRows hpass)
    simp only [List.length_append, List.length_singleton] at hlen
    change (journal cfg file .ownerRecheck tr).length + 1 = 1 at hlen
    omega

/-- **Whatever else happens leaves the claim due when it was**, or prunes what was never asked
about. -/
theorem step_other (h : Scheduled cfg file base k tr x.shared) (hrun : Runs cfg file tr x)
    (hs : Step (machine cfg) x ev x') (hup : x.shared.phase = .up) (hcrash : isCrash ev = false)
    (hpres : preservesAt k ev = false) (hset : setsBackoff ev ≠ some k)
    (hup' : x'.shared.phase = .up) : Scheduled cfg file base k (tr ++ [ev]) x'.shared := by
  obtain ⟨hg, ha⟩ := hrun.next hs
  have hq : queries cfg file k (tr ++ [ev]) = queries cfg file k tr := by
    rw [hrun.queries_snoc hs, noteQuery]
    simp [hpres, hcrash, hset]
  have hsnoc : journal cfg file .ownerRecheck (tr ++ [ev]) = _ := Run.journal_snoc hrun hs []
  refine ⟨fun hdown => absurd hup' hdown, fun {c'} hk => ?_, fun {c'} hk hne => ?_,
    fun {c' s₀} hj hk hne => ?_⟩
  · obtain ⟨c₀, hk₀, -⟩ := hk.back hg ha hup hpres
    rw [hq]
    cases htouch : touchesBackoff k ev with
    | false =>
      rw [hg.backoff_same ha hup hcrash htouch]
      exact h.backoff hk₀
    | true =>
      -- only what no pass has asked about is pruned
      obtain ⟨keep, rfl, hk⟩ := prunes_of_touches hg htouch hset
      obtain ⟨s₀, hj, rfl⟩ := hrun.pruned hs
      have hnil : queries cfg file k tr = [] := by
        by_contra hne
        exact hk (h.known hj hk₀ hne)
      rw [hnil, ← Option.some.inj ha]
      simp [State.entered, State.record, State.setMem, Section.run, hk, backoffFor]
  · obtain ⟨c₀, hk₀, -, hst⟩ := hk.back hg ha hup hpres
    exact hst (h.settled hk₀ (hq ▸ hne))
  · obtain ⟨c₀, hk₀, -⟩ := hk.back hg ha hup hpres
    rw [hq] at hne
    rw [hsnoc] at hj
    by_cases hres : ev.Resets .ownerRecheck
    · rw [note_of_resets hres] at hj
      cases hj
    by_cases htid : ev.tid = some .ownerRecheck
    · -- the look of a pass
      rw [note_of_tid htid hres] at hj
      obtain ⟨-, he⟩ := List.append_inj' (hj.trans (List.nil_append _).symm) rfl
      cases he
      exact mem_keys_of_lookup (hk₀.preserved (h.settled hk₀ hne))
    · rw [note_of_ne htid hres] at hj
      exact h.known hj hk₀ hne

end Scheduled

/-- **The map agrees with the history**, in every run in which every preservation begins afresh. -/
theorem Runs.scheduled (h : Runs cfg file tr x) (hb : base ≤ ownerRecheckMaxDelay)
    (hbase : FixedBase base tr) (hC : Throughout cfg file (FreshBackoff cfg file k) tr) :
    Scheduled cfg file base k tr x.shared := by
  induction h with
  | nil => exact .of_empty rfl rfl
  | @snoc tr x ev x' h hs ih =>
    have hrun : Runs cfg file tr x := h
    have hold := ih hbase.left hC.left
    have hc : FreshBackoff cfg file k tr x.shared ev := hC tr ev [] x rfl h
    obtain ⟨hg, ha⟩ := hrun.next hs
    by_cases hup : x.shared.phase = .up
    swap
    · exact hold.step_down hrun hs hup
    have hnote := hrun.queries_snoc hs k
    cases hcrash : isCrash ev with
    | true =>
      obtain rfl : ev = .crashed := by cases ev <;> first | rfl | cases hcrash
      refine .of_empty (by simp [hnote, noteQuery, hcrash]) ?_
      have hm : x'.shared = x.shared.crash := by
        simp only [apply, hup, reduceCtorEq, if_false] at ha
        exact (Option.some.inj ha).symm
      rw [hm]
      rfl
    | false =>
      have hup' : x'.shared.phase = .up := by
        refine (hrun.evolves (Run.nil.snoc hs) hup fun ev' hev => ?_).phase.trans hup
        obtain rfl := List.mem_singleton.mp hev
        rintro rfl
        cases hcrash
      cases hpres : preservesAt k ev with
      | true =>
        obtain ⟨t, id, owner, rfl⟩ := preservesAt_eq_true hpres
        refine .of_empty (by simp [hnote, noteQuery, hpres]) ?_
        rw [hg.backoff_same ha hup rfl rfl]
        exact (hc.fresh hpres).1
      | false =>
        by_cases hset : setsBackoff ev = some k
        · obtain ⟨r, rfl⟩ := setsBackoff_eq_some hg hset
          exact hold.step_set hrun hb hbase.left hC.left hs
        · exact hold.step_other hrun hs hup hcrash hpres hset hup'

/-! ## When a tick asks -/

/-- Until a pass asks about a key of its snapshot, the backoff is what the snapshot found. -/
theorem Runs.backoff_at (h : Runs cfg file tr x) {s₀ : State} {rest : List Entry}
    (hfirst : journal cfg file .ownerRecheck tr = (.read .ownerRecheck, s₀) :: rest)
    (hk : k ∈ s₀.mem.preserved.keys) (hj : journal cfg file .ownerRecheck tr = l₁ ++ (ev, s) :: l₂)
    (hnew : ¬ Asked k l₁) : s.mem.ownerRechecks.lookup k = s₀.mem.ownerRechecks.lookup k := by
  obtain ⟨op, hop⟩ := h.inCall (t := .ownerRecheck) (e := (ev, s)) (by rw [hj]; simp)
  cases l₁ with
  | nil =>
    rw [hfirst] at hj
    cases hj
    rfl
  | cons e₀ l₁ =>
    obtain ⟨he₀, hrest⟩ : (.read .ownerRecheck, s₀) = e₀ ∧ rest = l₁ ++ (ev, s) :: l₂ := by
      rw [hfirst] at hj
      simpa using hj
    subst he₀
    obtain ⟨tr₁, tr₂, x₁, x₂, -, h₁, rfl, hj₁, -⟩ := h.entry hj
    have hj₁' : journal cfg file .ownerRecheck tr₁ = [] ++ (.read .ownerRecheck, s₀) :: l₁ := hj₁
    refine h₁.backoff_since hj₁' fun e he => ?_
    -- no entry before sets the backoff of `k`, and the pruning keeps it
    by_contra htouch
    obtain ⟨ev', s'⟩ := e
    obtain ⟨a, b, hab⟩ := List.append_of_mem he
    have hmem : (ev', s') ∈ journal cfg file .ownerRecheck tr := by
      rw [hj]
      exact List.mem_append_left _ he
    obtain ⟨-, hg, -⟩ := h.entry_guard hmem
    obtain ⟨keep, rfl, hkeep⟩ := prunes_of_touches hg (by simpa using htouch) fun hset =>
      hnew ⟨_, he, hset⟩
    have hsplit : journal cfg file .ownerRecheck tr =
        a ++ (.locked .ownerRecheck (.pruneRechecks keep), s') :: (b ++ (ev, x₁.shared) :: l₂) := by
      rw [hj, hab]
      simp
    have htext := h.entry_text (follows_ownerRecheck cfg) hop hsplit
    cases op with
    | recheckOwners now base =>
      obtain ⟨s₁, ha, rfl⟩ := htext
      rw [ha] at hab
      cases hab
      exact hkeep hk
    | _ => exact htext.elim

/-- **A tick that asks has found the claim due**, and has read its owner if that can be read. -/
theorem Runs.due_of_asked (h : Runs cfg file tr x) {s₀ : State} {rest : List Entry}
    {hist : List Time} {r : Outcome}
    (hfirst : journal cfg file .ownerRecheck tr = (.read .ownerRecheck, s₀) :: rest)
    (hc : s₀.mem.preserved.lookup k = some c)
    (hsched : s₀.mem.ownerRechecks.lookup k = backoffFor base hist)
    (hstep : Step (machine cfg) x (.finished .ownerRecheck (.recheckOwners now base) r) x')
    (hask : Asked k (journal cfg file .ownerRecheck tr)) :
    dueAt base hist now ∧
      (Readable cfg c → OwnerAsked k (journal cfg file .ownerRecheck tr)) := by
  obtain ⟨⟨ev, s⟩, he, hset⟩ := hask
  obtain ⟨r', rfl⟩ := setsBackoff_eq_some (h.entry_guard he).2.1 hset
  obtain ⟨a, b, hab⟩ := List.append_of_mem he
  obtain ⟨hnew, pre, sr, mid, c', rfl, hrow, hdue, hinq⟩ :=
    h.entry_text (follows_ownerRecheck cfg) (.of_finished hstep) hab
  have hpre : journal cfg file .ownerRecheck tr =
      pre ++ (.read .ownerRecheck, sr) ::
        (mid ++ (.locked .ownerRecheck (.setRecheck k r'), s) :: b) := by
    rw [hab]
    simp
  have hsame := h.backoff_at hfirst (mem_keys_of_lookup hc) hpre fun hask =>
    hnew (asked_append.mpr (.inl hask))
  -- the claim it asks about is the one it has in its snapshot
  obtain rfl : c = c' := by
    rw [← passRows_append (ne_nil_of_passRows hrow), ← hpre, hfirst] at hrow
    exact Option.some.inj (hc.symm.trans hrow)
  refine ⟨dueAt_iff.mpr fun e he => hdue e (by rw [hsame, hsched, he]), fun hread => ?_⟩
  obtain ⟨e, hem, hke⟩ := hinq.ownerAsked_of_readable hread
  exact ⟨e, by rw [hpre]; simp [hem], hke⟩

/-- **A tick that skips the claim has found it not yet due.** -/
theorem Runs.not_due_of_skipped (h : Runs cfg file tr x) {s₀ : State} {rest : List Entry}
    {hist : List Time}
    (hfirst : journal cfg file .ownerRecheck tr = (.read .ownerRecheck, s₀) :: rest)
    (hc : s₀.mem.preserved.lookup k = some c)
    (hsched : s₀.mem.ownerRechecks.lookup k = backoffFor base hist)
    (hskip : Skipped now k (journal cfg file .ownerRecheck tr))
    (hnot : ¬ Asked k (journal cfg file .ownerRecheck tr)) : ¬ dueAt base hist now := by
  intro hdue
  obtain ⟨sr, e, hsr, he, hlt⟩ := hskip
  obtain ⟨a, b, hab⟩ := List.append_of_mem hsr
  have hsame := h.backoff_at hfirst (mem_keys_of_lookup hc) hab fun hask => hnot (by
    rw [hab]
    exact asked_append.mpr (.inl hask))
  rw [hsame, hsched] at he
  exact absurd (dueAt_iff.mp hdue e he) (not_le.mpr hlt)

/-! ## Whom the schedule is for -/

/-- **A settled claim that a `DeletePod` has preserved, until it is withdrawn or adopted**: the
preserving section found the claim `c` at `k` and settled; the process goes on, no Pod has been
bound to `c` since, and it is still the row. -/
structure Waiting (cfg : Config) (file : File) (k : Key) (c : Claim) (tr : List Ev) (s : State) :
    Prop where
  row : s.row k = some c
  preserved : ∃ tr₀ owner tr' x₀,
    tr = tr₀ ++ .locked (.lifecycle k) (.preserveClaim k c.id owner) :: tr' ∧ Runs cfg file tr₀ x₀ ∧
    (x₀.shared.row k).map Claim.id = some c.id ∧ x₀.shared.mem.settled k ∧
    (∀ ev ∈ tr', ev ≠ .crashed) ∧
    ∀ b ∈ s.ledger.bindings, b.key = k → b.id = c.id → b.instant ≤ x₀.shared.instant

/-- **Such a claim is kept for its owner, and settled.** -/
theorem Runs.waiting_kept (h : Runs cfg file tr x)
    (hC : Throughout cfg file (FreshBackoff cfg file k) tr)
    (hw : Waiting cfg file k c tr x.shared) :
    Kept x.shared k c ∧ x.shared.mem.settled k := by
  obtain ⟨hrow, tr₀, owner, tr', x₀, rfl, h₀, hid₀, hset, hcrash, hno⟩ := hw
  obtain ⟨x₁, y₀, hx₁, hs, hrun⟩ := Run.split h
  have hsame : x₀.shared = x₁.shared := Run.shared_eq h₀ hx₁
  rw [hsame] at hid₀ hset hno
  have h₁ : Runs cfg file tr₀ x₁ := hx₁
  obtain ⟨hg, ha⟩ := h₁.next hs
  have hup : x₁.shared.phase = .up := hg.1
  obtain ⟨c₀, hc₀, hid₀⟩ := Option.map_eq_some_iff.mp hid₀
  have hbefore : Evolves x₁.shared y₀.shared := h₁.evolves (Run.nil.snoc hs) hup fun ev hev => by
    rw [List.mem_singleton.mp hev]
    nofun
  have hpark : ParkedFrom y₀.shared k c.id (x₁.shared.instant + 1) := by
    rw [← Option.some.inj ha]
    exact .begin hg (Memory.settled_eq_true.mp hset).1
  have hspares : Throughout cfg file (fun _ s ev => SparesKept k s ev)
      (tr₀ ++ [.locked (.lifecycle k) (.preserveClaim k c.id owner)] ++ tr') := by
    rw [List.append_assoc]
    exact hC.imp FreshBackoff.spares
  obtain ⟨howner, hpod, -⟩ := (ParkedFrom.run (h₁.snoc hs) hrun hspares hpark
    (.inl ⟨hbefore.phase.trans hup, hcrash⟩) (hbefore.seen x₁.shared.seen_mem) hc₀ hid₀
    fun b hb hk hid => (hno b hb hk hid).trans hbefore.instant).now c hrow rfl
  refine ⟨⟨hrow, howner, hpod⟩, ?_⟩
  -- its markers were clear when it was preserved, and nobody has set one since
  have hafter : Evolves x₁.shared x.shared :=
    hbefore.trans (Runs.evolves (h₁.snoc hs) hrun (hbefore.phase.trans hup) hcrash)
  obtain ⟨-, -, -, ht, hq⟩ | hunseen := hafter.rows hrow
  · have hmarks := Memory.settled_eq_true.mp hset
    exact Memory.settled_eq_true.mpr ⟨fun h => hmarks.1 (ht h), fun h => hmarks.2 (hq h)⟩
  · exact absurd hid₀ (hunseen.2 x₁.shared.seen_mem (Memory.holds_row hc₀))

/-- The look with which the tick in progress at the end of `tr` began. -/
structure TickLook (cfg : Config) (file : File) (tr tr₁ tr₂ : List Ev)
    (x₁ : Interleave.Config State Memory Section Request Reply Tid Op Outcome) : Prop where
  split : tr = tr₁ ++ .read .ownerRecheck :: tr₂
  run : Runs cfg file tr₁ x₁
  first : journal cfg file .ownerRecheck tr₁ = []
  since : ∀ ev ∈ tr₂, ¬ ev.Resets .ownerRecheck

theorem TickLook.journal_eq {tr₁ tr₂ : List Ev}
    {x₁ : Interleave.Config State Memory Section Request Reply Tid Op Outcome}
    (h : TickLook cfg file tr tr₁ tr₂ x₁) (hrun : Runs cfg file tr x) :
    ∃ rest, journal cfg file .ownerRecheck tr = (.read .ownerRecheck, x₁.shared) :: rest := by
  obtain ⟨rfl, h₁, hfirst, hno⟩ := h
  obtain ⟨x₁', x₂, h₁', hs, -⟩ := Run.split hrun
  have hsame : x₁'.shared = x₁.shared := Run.shared_eq h₁' h₁
  have happ := Machine.history_append (f := note .ownerRecheck) (Run.replay h₁') []
    (.read .ownerRecheck :: tr₂)
  have hcons := hs.journal_cons (t := .ownerRecheck) rfl (fun h => h) hno
  refine ⟨(machine cfg).journal .ownerRecheck [] x₂.shared tr₂, ?_⟩
  rw [← hsame, ← hcons]
  refine happ.trans ?_
  change (machine cfg).journal .ownerRecheck (journal cfg file .ownerRecheck tr₁) x₁'.shared _ = _
  rw [hfirst]

/-- **Re-check backoff belongs to one preservation.**  Every tick that returns has begun with a look
at the tables.  What a `DeletePod` preserved before that look, settled, and nobody has withdrawn or
adopted, is kept for its owner and settled when it looks; and of what is so kept the tick asks about
the owner exactly if it has not been asked about since it was preserved, or the delay that the
queries since then call for has passed since the last of them. -/
theorem recheck_backoff_per_preservation (h : Runs cfg file tr x) (hb : base ≤ ownerRecheckMaxDelay)
    (hbase : FixedBase base tr) (hC : Throughout cfg file (FreshBackoff cfg file k) tr)
    {r : Outcome}
    (hstep : Step (machine cfg) x (.finished .ownerRecheck (.recheckOwners now base) r) x') :
    (∃ tr₁ tr₂ x₁, TickLook cfg file tr tr₁ tr₂ x₁) ∧
    ∀ tr₁ tr₂ x₁, TickLook cfg file tr tr₁ tr₂ x₁ →
      (∀ c, Waiting cfg file k c tr₁ x₁.shared → Kept x₁.shared k c ∧ x₁.shared.mem.settled k) ∧
      ∀ c, Kept x₁.shared k c → x₁.shared.mem.settled k →
        x₁.shared.mem.preserved.lookup k = some c ∧
        (Asked k (journal cfg file .ownerRecheck tr) ↔ dueAt base (queries cfg file k tr₁) now) ∧
        (Readable cfg c → (OwnerAsked k (journal cfg file .ownerRecheck tr) ↔
          dueAt base (queries cfg file k tr₁) now)) := by
  have hdone : PassDone now (journal cfg file .ownerRecheck tr) :=
    h.finished (follows_ownerRecheck cfg) hstep now base rfl
  constructor
  · obtain ⟨s₀, rest, hfirst⟩ := hdone.began
    have hfirst' : journal cfg file .ownerRecheck tr = [] ++ (.read .ownerRecheck, s₀) :: rest :=
      hfirst
    obtain ⟨tr₁, tr₂, x₁, x₂, rfl, h₁, rfl, hj₁, -, -, hno⟩ := h.entry hfirst'
    exact ⟨tr₁, tr₂, x₁, rfl, h₁, hj₁, hno⟩
  intro tr₁ tr₂ x₁ hlook
  obtain ⟨rest, hfirst⟩ := hlook.journal_eq h
  obtain ⟨rfl, h₁, -, -⟩ := hlook
  refine ⟨fun c hw => h₁.waiting_kept hC.left hw, fun c hkept hsettled => ?_⟩
  have hc := hkept.preserved hsettled
  have hsched := (h₁.scheduled hb hbase.left hC.left).backoff hkept
  have hasked := h.due_of_asked hfirst hc hsched hstep
  have hiff : Asked k (journal cfg file .ownerRecheck (tr₁ ++ .read .ownerRecheck :: tr₂)) ↔
      dueAt base (queries cfg file k tr₁) now := by
    refine ⟨fun hask => (hasked hask).1, fun hdue => ?_⟩
    by_contra hnot
    obtain hask | hskip := hdone.done (by rw [hfirst]; exact hc)
    · exact hnot hask
    · exact h.not_due_of_skipped hfirst hc hsched hskip hnot hdue
  exact ⟨hc, hiff, fun hread => ⟨fun hown => hiff.mp (hdone.owner hown),
    fun hdue => (hasked (hiff.mpr hdue)).2 hread⟩⟩

/-! ## Runs -/

/-- `Waiting`, checked position by position. -/
def waiting (cfg : Config) (file : File) (k : Key) (c : Claim) (tr : List Ev) (s : State) : Bool :=
  s.row k = some c && (List.range tr.length).any fun i =>
    (tr[i]?).any (fun ev =>
      entered ev = some (.lifecycle k, .preserveClaim k c.id c.owner)) &&
    (((machine cfg).replay (State.initial file) (tr.take i)).any fun s₀ =>
      (s₀.row k).map Claim.id = some c.id && s₀.mem.settled k &&
      s.ledger.bindings.all fun b => b.instant ≤ s₀.instant) &&
    (tr.drop (i + 1)).all fun ev => !isCrash ev

theorem Waiting.of_check (h : Runs cfg file tr x) (hw : waiting cfg file k c tr s = true) :
    Waiting cfg file k c tr s := by
  rw [waiting, Bool.and_eq_true, decide_eq_true_eq] at hw
  obtain ⟨hrow, hpres⟩ := hw
  obtain ⟨i, -, hi⟩ := List.any_eq_true.mp hpres
  simp only [Bool.and_eq_true, Option.any_eq_true, decide_eq_true_eq] at hi
  obtain ⟨⟨⟨ev, hget, hent⟩, s₀, hrep, ⟨hid, hset⟩, hbind⟩, hcrash⟩ := hi
  obtain rfl : ev = _ := entered_eq_some hent
  have htr : tr = tr.take i ++ .locked (.lifecycle k) (.preserveClaim k c.id c.owner) ::
      tr.drop (i + 1) := by
    obtain ⟨hlt, hi⟩ := List.getElem?_eq_some_iff.mp hget
    rw [← hi, List.getElem_cons_drop hlt, List.take_append_drop]
  obtain ⟨x₀, h₀, -⟩ := Run.cut (show Run _ _ (tr.take i ++ _) _ from htr ▸ h)
  obtain rfl : x₀.shared = s₀ := Option.some.inj ((Run.replay h₀).symm.trans hrep)
  refine ⟨hrow, tr.take i, c.owner, tr.drop (i + 1), x₀, htr, h₀, hid, hset, ?_, fun b hb _ _ => ?_⟩
  · rintro ev hev rfl
    cases List.all_eq_true.mp hcrash _ hev
  · exact of_decide_eq_true (List.all_eq_true.mp hbind b hb)

/-- `TickLook`, checked on what follows the look. -/
def tickLook (cfg : Config) (file : File) (tr tr₁ : List Ev) : Bool :=
  (journal cfg file .ownerRecheck tr₁).isEmpty &&
    (tr.drop (tr₁.length + 1)).all fun ev => !decide (Event.Resets Tid.ownerRecheck ev)

theorem TickLook.of_check {tr₁ tr₂ : List Ev} (h : Runs cfg file tr₁ x)
    (hlook : tickLook cfg file (tr₁ ++ .read .ownerRecheck :: tr₂) tr₁ = true) :
    TickLook cfg file (tr₁ ++ .read .ownerRecheck :: tr₂) tr₁ tr₂ x := by
  obtain ⟨hj, hres⟩ := Bool.and_eq_true_iff.mp hlook
  refine ⟨rfl, h, List.isEmpty_iff.mp hj, fun ev hev => ?_⟩
  have hno := List.all_eq_true.mp hres ev (by simp [List.drop_append, hev])
  simpa using hno

/-- The claim of the runs below, as a `DeletePod` preserves it. -/
def keptClaim (uid : String) : Claim :=
  { sampleClaim "s1" (samplePod "p" uid [sampleOwner "rs-1"]) with
    owner := some (sampleOwner "rs-1") }

/-- A preserved claim is asked about at the first tick, and there is a second one when the base
delay has passed. -/
def askedTwice : Schedule :=
  call .boot .new 10 {} ++
  call (.lifecycle "ns/p") (.createPod (samplePod "p" "uid-1" [sampleOwner "rs-1"])) 17
    { claimed := .ok (sampleResult "s1") } ++
  call (.lifecycle "ns/p") (.deletePod (samplePod "p" "uid-1" [sampleOwner "rs-1"])) 11 {} ++
  call .ownerRecheck (.recheckOwners (9 * second) (10 * second)) 8 { order := ["ns/p"] } ++
  call .ownerRecheck (.recheckOwners (19 * second) (10 * second)) 0 {}

/-- The second tick asks again. -/
theorem recheck_backoff_per_preservation_of_second_tick : ∃ tr₁ x₁ tr₂ x x' r c,
    Runs fullConfig .absent (tr₁ ++ .read .ownerRecheck :: tr₂) x ∧
    Step (machine fullConfig) x
      (.finished .ownerRecheck (.recheckOwners (19 * second) (10 * second)) r) x' ∧
    10 * second ≤ ownerRecheckMaxDelay ∧
    FixedBase (10 * second) (tr₁ ++ .read .ownerRecheck :: tr₂) ∧
    Throughout fullConfig .absent (FreshBackoff fullConfig .absent "ns/p")
      (tr₁ ++ .read .ownerRecheck :: tr₂) ∧
    TickLook fullConfig .absent (tr₁ ++ .read .ownerRecheck :: tr₂) tr₁ tr₂ x₁ ∧
    Waiting fullConfig .absent "ns/p" c tr₁ x₁.shared ∧
    x₁.shared.mem.preserved.lookup "ns/p" = some c ∧
    queries fullConfig .absent "ns/p" tr₁ = [9 * second] ∧
    Asked "ns/p" (journal fullConfig .absent .ownerRecheck (tr₁ ++ .read .ownerRecheck :: tr₂)) ∧
    OwnerAsked "ns/p"
      (journal fullConfig .absent .ownerRecheck (tr₁ ++ .read .ownerRecheck :: tr₂)) := by
  obtain ⟨tr₁, x₁, ev, tr₂, x, ev', x', h₁, h, hstep, hread, hall, hcheck, hev, hl, hw, hq⟩ :=
    exists_two_steps fullConfig .absent askedTwice (.move .ownerRecheck (World.reply {}))
      (steps .ownerRecheck 6 { order := ["ns/p"] }) (.move .ownerRecheck (World.reply {}))
      (fun tr₁ s₁ ev tr _ ev' => readBy ev = some .ownerRecheck ∧ FixedBase (10 * second) tr ∧
        checkThroughout fullConfig .absent (FreshBackoff fullConfig .absent "ns/p") tr = true ∧
        returnedOk ev' = some (.ownerRecheck, .recheckOwners (19 * second) (10 * second)) ∧
        tickLook fullConfig .absent tr tr₁ = true ∧
        waiting fullConfig .absent "ns/p" (keptClaim "uid-1") tr₁ s₁ = true ∧
        queries fullConfig .absent "ns/p" tr₁ = [9 * second])
      (by decide +kernel)
  obtain rfl := readBy_eq_some hread
  obtain rfl := returnedOk_eq_some hev
  have hC := Throughout.of_check hcheck
  have hb : 10 * second ≤ ownerRecheckMaxDelay := by decide
  have hlook : TickLook fullConfig .absent (tr₁ ++ .read .ownerRecheck :: tr₂) tr₁ tr₂ x₁ :=
    .of_check h₁ hl
  have hwait : Waiting fullConfig .absent "ns/p" (keptClaim "uid-1") tr₁ x₁.shared :=
    .of_check h₁ hw
  obtain ⟨hkept, hasks⟩ :=
    (recheck_backoff_per_preservation h hb hall hC hstep).2 tr₁ tr₂ x₁ hlook
  obtain ⟨hk, hs⟩ := hkept _ hwait
  obtain ⟨hpres, hasked, howner⟩ := hasks _ hk hs
  have hdue : dueAt (10 * second) (queries fullConfig .absent "ns/p" tr₁) (19 * second) = true := by
    rw [hq]
    decide
  exact ⟨tr₁, x₁, tr₂, x, x', _, _, h, hstep, hb, hall, hC, hlook, hwait, hpres, hq,
    hasked.mpr hdue,
    (howner ⟨rfl, _, rfl, by decide⟩).mpr hdue⟩

/-- A preserved claim is asked about, adopted and preserved again before the next tick. -/
def preservedTwice : Schedule :=
  call .boot .new 10 {} ++
  call (.lifecycle "ns/p") (.createPod (samplePod "p" "uid-1" [sampleOwner "rs-1"])) 17
    { claimed := .ok (sampleResult "s1") } ++
  call (.lifecycle "ns/p") (.deletePod (samplePod "p" "uid-1" [sampleOwner "rs-1"])) 11 {} ++
  call .ownerRecheck (.recheckOwners (9 * second) (10 * second)) 8 { order := ["ns/p"] } ++
  call (.lifecycle "ns/p") (.createPod (samplePod "p" "uid-2" [sampleOwner "rs-1"])) 12 {} ++
  call (.lifecycle "ns/p") (.deletePod (samplePod "p" "uid-2" [sampleOwner "rs-1"])) 11 {} ++
  call .ownerRecheck (.recheckOwners (12 * second) (10 * second)) 0 {}

/-- **The first tick after a preservation does not ask**: it finds the backoff of the one before. -/
theorem recheck_backoff_outlives_preservation : ∃ tr₁ x₁ tr₂ x x' r c,
    Runs fullConfig .absent (tr₁ ++ .read .ownerRecheck :: tr₂) x ∧
    Step (machine fullConfig) x
      (.finished .ownerRecheck (.recheckOwners (12 * second) (10 * second)) r) x' ∧
    FixedBase (10 * second) (tr₁ ++ .read .ownerRecheck :: tr₂) ∧
    TickLook fullConfig .absent (tr₁ ++ .read .ownerRecheck :: tr₂) tr₁ tr₂ x₁ ∧
    Waiting fullConfig .absent "ns/p" c tr₁ x₁.shared ∧
    x₁.shared.mem.preserved.lookup "ns/p" = some c ∧
    queries fullConfig .absent "ns/p" tr₁ = [] ∧
    ¬ Asked "ns/p"
      (journal fullConfig .absent .ownerRecheck (tr₁ ++ .read .ownerRecheck :: tr₂)) := by
  obtain ⟨tr₁, x₁, ev, tr₂, x, ev', x', h₁, h, hstep, hread, hall, hev, hl, hw, hpres, hq, hask⟩ :=
    exists_two_steps fullConfig .absent preservedTwice (.move .ownerRecheck (World.reply {}))
      (steps .ownerRecheck 4 { order := ["ns/p"] }) (.move .ownerRecheck (World.reply {}))
      (fun tr₁ s₁ ev tr _ ev' => readBy ev = some .ownerRecheck ∧ FixedBase (10 * second) tr ∧
        returnedOk ev' = some (.ownerRecheck, .recheckOwners (12 * second) (10 * second)) ∧
        tickLook fullConfig .absent tr tr₁ = true ∧
        waiting fullConfig .absent "ns/p" (keptClaim "uid-2") tr₁ s₁ = true ∧
        s₁.mem.preserved.lookup "ns/p" = some (keptClaim "uid-2") ∧
        queries fullConfig .absent "ns/p" tr₁ = [] ∧
        ¬ Asked "ns/p" (journal fullConfig .absent .ownerRecheck tr))
      (by decide +kernel)
  obtain rfl := readBy_eq_some hread
  obtain rfl := returnedOk_eq_some hev
  exact ⟨tr₁, x₁, tr₂, x, x', _, _, h, hstep, hall, .of_check h₁ hl, .of_check h₁ hw, hpres,
    hq, hask⟩

end Results

end VkSandbox
