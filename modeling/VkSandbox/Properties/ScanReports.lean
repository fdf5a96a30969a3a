import VkSandbox.Properties.Conservation
import VkSandbox.Properties.Scans
import VkSandbox.Provider.Requests

/-!
# Properties/ScanReports — an orphan scan reports all it should, once each

`Properties/Scans` is about what a scan's verdicts say of the node.  Here a report is compared with
the listing and the snapshot it was made from, and it is exact:

    orphans    the listed sandboxes without a claim_ref that no table knows
    stale      the keys whose sandbox is not listed, once each
    verdicts   external, orphan or stale, for the sandboxes these words describe and no others
    lines      the verdicts that differ from those of the scan before

The scan inverts the claims (`claimed[c.ID] = key`), so a key could hide another of the same
sandbox; that no id is in the tables twice (`Runs.distinct`) is what makes the report complete.
-/

namespace VkSandbox

open Interleave Interleave.Prog Table

variable {cfg : Config} {file : File} {tr : List Ev} {l : List Entry}
  {x x' : Interleave.Config State Memory Section Request Reply Tid Op Outcome}
  {listed : List SandboxSummary} {m : Memory} {order ids : List Key} {id : String} {k : Key}
  {d : OrphanVerdict}

/-! ## The loops that record verdicts -/

/-- What a scan builds up: the verdicts, and the lines it has logged. -/
structure ScanRecord where
  verdicts : Table String OrphanVerdict := ∅
  lines : List (String × OrphanVerdict) := []

/-- `recordVerdict`, with the line its callers log when it reports a change. -/
def recordVerdict (old : Table String OrphanVerdict) (r : ScanRecord) (id : String)
    (verdict : OrphanVerdict) : ScanRecord where
  verdicts := r.verdicts.insert id verdict
  lines := if old.lookup id ≠ some verdict then r.lines ++ [(id, verdict)] else r.lines

/-- The two loops of `OrphanScan` that record verdicts, over the listing and over the claims that
are not in it. -/
def scanRecord (m : Memory) (claimed : Table String Key) (listed : List SandboxSummary)
    (staleIds : List String) : ScanRecord :=
  staleIds.foldl (fun r id => recordVerdict m.orphanVerdicts r id .stale)
    (listed.foldl (fun r s => match listedVerdict claimed m.releasing s with
      | some v => recordVerdict m.orphanVerdicts r s.id v
      | none => r) {})

/-- The verdicts in the order they are recorded. -/
def scanRows (m : Memory) (claimed : Table String Key) (listed : List SandboxSummary)
    (staleIds : List String) : List (String × OrphanVerdict) :=
  (listed.filterMap fun s => (listedVerdict claimed m.releasing s).map fun v => (s.id, v)) ++
    staleIds.map fun id => (id, .stale)

theorem foldl_recordVerdict (old : Table String OrphanVerdict)
    (rows : List (String × OrphanVerdict)) (r : ScanRecord) :
    rows.foldl (fun r p => recordVerdict old r p.1 p.2) r
      = ⟨rows.foldl (fun t p => t.insert p.1 p.2) r.verdicts,
        r.lines ++ rows.filter fun p => old.lookup p.1 ≠ some p.2⟩ := by
  induction rows generalizing r with
  | nil => simp
  | cons p rows ih =>
    rw [List.foldl_cons, ih, List.foldl_cons, List.filter_cons, recordVerdict]
    by_cases hp : old.lookup p.1 = some p.2
    · simp [hp]
    · simp [hp]

/-- A loop over the listing is one over the rows it records. -/
theorem foldl_listed {σ : Type} (f : σ → String → OrphanVerdict → σ) (claimed : Table String Key)
    (queued : List Claim) (listed : List SandboxSummary) (r : σ) :
    listed.foldl (fun r s => match listedVerdict claimed queued s with
        | some v => f r s.id v
        | none => r) r
      = (listed.filterMap fun s => (listedVerdict claimed queued s).map fun v => (s.id, v)).foldl
        (fun r p => f r p.1 p.2) r := by
  rw [List.foldl_filterMap]
  congr 1
  funext r s
  cases listedVerdict claimed queued s <;> rfl

theorem scanRecord_eq (m : Memory) (claimed : Table String Key) (listed : List SandboxSummary)
    (staleIds : List String) : scanRecord m claimed listed staleIds
      = ⟨(scanRows m claimed listed staleIds).foldl (fun t p => t.insert p.1 p.2) ∅,
        (scanRows m claimed listed staleIds).filter
          fun p => m.orphanVerdicts.lookup p.1 ≠ some p.2⟩ := by
  have hrecord := foldl_recordVerdict m.orphanVerdicts (scanRows m claimed listed staleIds) {}
  rw [scanRows, List.foldl_append, List.foldl_map, ← foldl_listed] at hrecord
  exact hrecord

/-- What the scan puts into the provider is what these loops record. -/
theorem scanRecord_verdicts (m : Memory) (claimed : Table String Key) (listed : List SandboxSummary)
    (staleIds : List String) : (scanRecord m claimed listed staleIds).verdicts
      = staleIds.foldl (fun t id => t.insert id .stale)
        (listed.foldl (fun (t : Table String OrphanVerdict) s =>
          match listedVerdict claimed m.releasing s with
          | some v => t.insert s.id v
          | none => t) ∅) := by
  rw [scanRecord_eq, scanRows, List.foldl_append, List.foldl_map,
    foldl_listed fun (t : Table String OrphanVerdict) id v => t.insert id v]

/-! ## What they should record -/

/-- **The verdict a sandbox deserves**, by a listing and the tables. -/
def Deserves (listed : List SandboxSummary) (m : Memory) (id : String) : OrphanVerdict → Prop
  | .external => ∃ s ∈ listed, s.id = id ∧ s.claimRef ≠ "" ∧ id ∉ m.all.ids
  | .orphan => ∃ s ∈ listed, s.id = id ∧ s.claimRef = "" ∧ id ∉ m.all.ids
  | .stale => ∃ k c, m.claims.lookup k = some c ∧ c.id = id ∧ id ∉ listedIds listed

/-- The claims a scan finds missing from the listing. -/
def unlisted (listed : List SandboxSummary) (ids : List String) : List String :=
  ids.filter fun id => ((liveDeadlines listed).lookup id).isNone

theorem mem_unlisted : id ∈ unlisted listed ids ↔ id ∈ ids ∧ id ∉ listedIds listed := by
  rw [unlisted, List.mem_filter, ← isSome_lookup_liveDeadlines, Option.isNone_iff_eq_none,
    Option.isSome_iff_ne_none, not_ne_iff]

theorem mem_all_ids : id ∈ m.all.ids ↔
    (∃ k c, m.claims.lookup k = some c ∧ c.id = id) ∨ ∃ c ∈ m.releasing, c.id = id := by
  rw [StateFile.mem_ids]
  constructor
  · rintro ⟨_, ⟨k, c, hc, rfl⟩ | ⟨c, hc, rfl⟩, rfl⟩
    · exact .inl ⟨k, c, hc, rfl⟩
    · exact .inr ⟨c, hc, rfl⟩
  · rintro (⟨k, c, hc, rfl⟩ | ⟨c, hc, rfl⟩)
    · exact ⟨c.cred, .inl ⟨k, c, hc, rfl⟩, rfl⟩
    · exact ⟨c.cred, .inr ⟨c, hc, rfl⟩, rfl⟩

theorem isSome_claimedTable (ho : Ranges m.claims.keys order) :
    ((claimedTable m order).lookup id).isSome ↔ ∃ k c, m.claims.lookup k = some c ∧ c.id = id := by
  constructor
  · intro h
    obtain ⟨k, hk⟩ := Option.isSome_iff_exists.mp h
    exact ⟨k, lookup_claimedTable hk⟩
  · rintro ⟨k, c, hc, rfl⟩
    exact isSome_build (g := fun key => m.claims.lookup key)
      (ho.mem_iff.mpr (Finmap.mem_keys.mpr (Finmap.mem_of_lookup_eq_some hc))) hc

/-- No id twice, so no key hides another. -/
theorem lookup_claimedTable_iff (hd : m.all.Distinct) (ho : Ranges m.claims.keys order) :
    (claimedTable m order).lookup id = some k ↔ ∃ c, m.claims.lookup k = some c ∧ c.id = id := by
  refine ⟨lookup_claimedTable, ?_⟩
  rintro ⟨c, hc, hid⟩
  obtain ⟨k', hk'⟩ := Option.isSome_iff_exists.mp ((isSome_claimedTable ho).mpr ⟨k, c, hc, hid⟩)
  obtain ⟨c', hc', hid'⟩ := lookup_claimedTable hk'
  rw [hk', hd.rows hc' hc (hid'.trans hid.symm)]

theorem listedVerdict_eq (ho : Ranges m.claims.keys order) (s : SandboxSummary) :
    listedVerdict (claimedTable m order) m.releasing s
      = if s.id ∈ m.all.ids then none
        else if s.claimRef ≠ "" then some .external else some .orphan := by
  have hheld : ((claimedTable m order).lookup s.id).isSome || m.releasing.any (·.id = s.id)
      ↔ s.id ∈ m.all.ids := by
    rw [Bool.or_eq_true, isSome_claimedTable ho, mem_all_ids, List.any_eq_true]
    simp only [decide_eq_true_eq]
  simp only [listedVerdict, hheld]

theorem mem_unlisted_claimed (ho : Ranges m.claims.keys order)
    (hids : Ranges (claimedTable m order).keys ids) :
    id ∈ unlisted listed ids ↔ Deserves listed m id .stale := by
  rw [mem_unlisted, hids.mem_iff, Finmap.mem_keys, ← Finmap.lookup_isSome, isSome_claimedTable ho]
  simp only [Deserves, ← exists_and_right, and_assoc]

/-- **The rows recorded are the verdicts deserved.** -/
theorem mem_scanRows (ho : Ranges m.claims.keys order)
    (hids : Ranges (claimedTable m order).keys ids) :
    (id, d) ∈ scanRows m (claimedTable m order) listed (unlisted listed ids)
      ↔ Deserves listed m id d := by
  have hstale : (id, d) ∈ (unlisted listed ids).map (fun id => (id, OrphanVerdict.stale)) ↔
      d = .stale ∧ Deserves listed m id .stale := by
    rw [List.mem_map, ← mem_unlisted_claimed ho hids]
    grind
  have hlisted : ∀ s, (listedVerdict (claimedTable m order) m.releasing s).map (fun v => (s.id, v))
      = some (id, d) ↔ s.id = id ∧ id ∉ m.all.ids ∧
      d = if s.claimRef ≠ "" then .external else .orphan := by
    intro s
    rw [listedVerdict_eq ho]
    grind
  rw [scanRows, List.mem_append, List.mem_filterMap, hstale]
  simp only [hlisted]
  cases d <;> simp only [Deserves] <;> grind

/-- A listed sandbox has at most one row. -/
theorem listedRows_sublist (claimed : Table String Key) (queued : List Claim)
    (listed : List SandboxSummary) :
    ((listed.filterMap fun s => (listedVerdict claimed queued s).map fun v => (s.id, v)).map
      Prod.fst).Sublist (listedIds listed) := by
  induction listed with
  | nil => exact List.Sublist.refl _
  | cons s listed ih =>
    rw [List.filterMap_cons]
    cases listedVerdict claimed queued s with
    | none => exact ih.cons s.id
    | some v => exact ih.cons_cons s.id

theorem nodup_scanRows (hnd : (listedIds listed).Nodup)
    (hids : Ranges (claimedTable m order).keys ids) :
    ((scanRows m (claimedTable m order) listed (unlisted listed ids)).map Prod.fst).Nodup := by
  have hsub := listedRows_sublist (claimedTable m order) m.releasing listed
  have hstale : ((unlisted listed ids).map fun id => (id, OrphanVerdict.stale)).map Prod.fst
      = unlisted listed ids := by
    rw [List.map_map]
    exact List.map_id _
  rw [scanRows, List.map_append, hstale, List.nodup_append]
  refine ⟨hnd.sublist hsub, hids.1.filter _, ?_⟩
  rintro _ h₁ id h₂ rfl
  exact (mem_unlisted.mp h₂).2 (hsub.subset h₁)

/-- **Verdicts and lines, from a listing that names no id twice.** -/
theorem scanRecord_exact (hnd : (listedIds listed).Nodup) (ho : Ranges m.claims.keys order)
    (hids : Ranges (claimedTable m order).keys ids) :
    (∀ id d, (scanRecord m (claimedTable m order) listed (unlisted listed ids)).verdicts.lookup id
      = some d ↔ Deserves listed m id d) ∧
    (scanRecord m (claimedTable m order) listed (unlisted listed ids)).lines.Nodup ∧
    ∀ id d, (id, d) ∈ (scanRecord m (claimedTable m order) listed (unlisted listed ids)).lines ↔
      (scanRecord m (claimedTable m order) listed (unlisted listed ids)).verdicts.lookup id =
        some d ∧
        m.orphanVerdicts.lookup id ≠ some d := by
  have hrows := nodup_scanRows (m := m) hnd hids
  rw [scanRecord_eq]
  refine ⟨fun id d => ?_, (List.Nodup.of_map _ hrows).filter _, fun id d => ?_⟩
  · rw [lookup_foldl_insert hrows, mem_scanRows ho hids]
  · rw [lookup_foldl_insert hrows, List.mem_filter, decide_eq_true_eq]

/-! ## What a scan returns -/

/-- The orphans are the listed sandboxes without a `claim_ref` that no table knows. -/
theorem orphans_eq (ho : Ranges m.claims.keys order) :
    listedIds
        (listed.filter fun s => listedVerdict (claimedTable m order) m.releasing s = some .orphan)
      = listedIds (listed.filter fun s => s.claimRef = "" ∧ s.id ∉ m.all.ids) := by
  congr 1
  refine List.filter_congr fun s _ => ?_
  rw [listedVerdict_eq ho]
  grind

theorem mem_staleKeys (hd : m.all.Distinct) (ho : Ranges m.claims.keys order)
    (hids : Ranges (claimedTable m order).keys ids) :
    k ∈ (unlisted listed ids).filterMap (claimedTable m order).lookup ↔ Stale listed m k := by
  rw [List.mem_filterMap]
  simp only [lookup_claimedTable_iff hd ho, mem_unlisted_claimed ho hids]
  constructor
  · rintro ⟨id, ⟨-, -, -, -, hn⟩, c, hc, rfl⟩
    exact ⟨c, hc, hn⟩
  · rintro ⟨c, hc, hn⟩
    exact ⟨c.id, ⟨k, c, hc, rfl, hn⟩, c, hc, rfl⟩

theorem nodup_staleKeys (hids : Ranges (claimedTable m order).keys ids) :
    ((unlisted listed ids).filterMap (claimedTable m order).lookup).Nodup := by
  refine List.Nodup.filterMap (fun id id' k hk hk' => ?_) (hids.1.filter _)
  obtain ⟨c, hc, rfl⟩ := lookup_claimedTable hk
  obtain ⟨c', hc', rfl⟩ := lookup_claimedTable hk'
  rw [Option.some.inj (hc.symm.trans hc')]

/-! ## The text of a scan -/

/-- **A scan has done its reading**: the listing, the snapshot, and the orders its loops range
in. -/
structure ScanAt (l : List Entry) (listed : List SandboxSummary) (m : Memory)
    (order ids : List Key) :
    Prop where
  entries : ∃ s₁ s₂ s₃ s₄ s₅ rest, l = (.asked .orphanScan .sendList (), s₁) ::
    (.asked .orphanScan .sandboxes (.ok listed), s₂) :: (.read .orphanScan, s₃) ::
    (.asked .orphanScan (.rangeOver m.claims.keys) order, s₄) ::
    (.asked .orphanScan (.rangeOver (claimedTable m order).keys) ids, s₅) :: rest ∧ s₃.mem = m
  rangesClaims : Ranges m.claims.keys order
  rangesClaimed : Ranges (claimedTable m order).keys ids

theorem ScanAt.saw (h : ScanAt l listed m order ids) : ScanSaw l listed m := by
  obtain ⟨s₁, s₂, s₃, s₄, s₅, rest, rfl, rfl⟩ := h.entries
  exact ⟨s₁, s₂, s₃, _, rfl, rfl⟩

/-- The verdicts an event puts into the provider. -/
def recorded : Ev → Option (Table String OrphanVerdict)
  | .locked _ (.setVerdicts v) => some v
  | _ => none

/-- What a scan records, to the row. -/
def ReportText (l : List Entry) (ev : Ev) (_ : State) : Prop :=
  ∀ t v, ev = .locked t (.setVerdicts v) → ∃ listed m order ids, ScanAt l listed m order ids ∧
    (∀ e ∈ l, recorded e.1 = none) ∧
    v = (scanRecord m (claimedTable m order) listed (unlisted listed ids)).verdicts

/-- What a scan returns, to the row. -/
def ReportDone (l : List Entry) (r : Option (List String × List Key)) : Prop :=
  ∀ orphans stale, r = some (orphans, stale) → ∃ listed m order ids, ScanAt l listed m order ids ∧
    orphans = listedIds (listed.filter fun s =>
      listedVerdict (claimedTable m order) m.releasing s = some .orphan) ∧
    stale = (unlisted listed ids).filterMap (claimedTable m order).lookup

theorem reportText_of_asked {s : State} {t : Tid} {e : Request} {r : Reply e} :
    ReportText l (.asked t e r) s := fun t v he => by cases he

theorem ranges_of_answer {keys : Finset Key} {order : List Key} {s s' : State}
    {t : Tid} (h : answer t (.rangeOver keys) order s = some s') : Ranges keys order := by
  simp only [answer] at h
  split at h
  · next ho => exact ho
  · cases h

theorem report_orphanScan : Text cfg .orphanScan ReportText ReportDone (orphanScan cfg) [] := by
  unfold orphanScan
  split
  · exact nofun
  unfold sandboxes
  refine Text.request fun _ s₁ _ _ => ⟨reportText_of_asked, Text.request fun r s₂ _ _ =>
    ⟨reportText_of_asked, ?_⟩⟩
  cases r with
  | error err => exact nofun
  | ok listed =>
    refine Text.look fun s₃ => ⟨(fun t v he => by cases he), Text.request fun order s₄ _ hs₄ =>
      ⟨reportText_of_asked, ?_⟩⟩
    have hord := ranges_of_answer hs₄
    dsimp only
    generalize hclaimed : List.foldl _ (∅ : Table String Key) order = claimed
    obtain rfl : claimedTable s₃.mem order = claimed := hclaimed ▸
      (Table.foldl_eq_build (fun _ _ _ h => by simp only [id_eq, h])
        (fun _ _ h => by simp only [id_eq, h])).symm
    refine Text.request fun ids s₅ _ hs₅ => ⟨reportText_of_asked, ?_⟩
    have hat : ∀ rest, ScanAt ((.asked .orphanScan .sendList (), s₁) ::
        (.asked .orphanScan .sandboxes (.ok listed), s₂) :: (.read .orphanScan, s₃) ::
        (.asked .orphanScan (.rangeOver s₃.mem.claims.keys) order, s₄) ::
        (.asked .orphanScan (.rangeOver (claimedTable s₃.mem order).keys) ids, s₅) :: rest)
        listed s₃.mem order ids :=
      fun rest => ⟨⟨s₁, s₂, s₃, s₄, s₅, rest, rfl, rfl⟩, hord, ranges_of_answer hs₅⟩
    refine Text.enter fun s₆ => ⟨fun t v he => ?_, fun orphans stale he => ?_⟩
    · cases he
      refine ⟨listed, s₃.mem, order, ids, hat _, ?_, (scanRecord_verdicts _ _ _ _).symm⟩
      simp [recorded]
    · cases he
      exact ⟨listed, s₃.mem, order, ids, hat _, rfl, rfl⟩

theorem follows_report (cfg : Config) : Follows cfg .orphanScan (fun _ => ReportText) fun _ l r =>
    ∀ rep, r = .scanned rep → ReportDone l rep := by
  intro op s s' h
  obtain ⟨he, -⟩ | hm := mayCall_of_started h
  · cases he
  · cases op with
    | orphanScan =>
      refine Machine.Follows.map (Machine.Follows.mono report_orphanScan fun l r hr rep he => ?_)
      cases he
      exact hr
    | _ => simp [mayCall] at hm

/-! ## The verdicts of the scan before -/

/-- **The verdicts of the last scan of the process**, none before the first. -/
def lastVerdicts (tr : List Ev) : Table String OrphanVerdict :=
  tr.foldl (fun v ev => if EndsProcess ev then ∅ else (recorded ev).getD v) ∅

theorem lastVerdicts_snoc (tr : List Ev) (ev : Ev) : lastVerdicts (tr ++ [ev])
    = if EndsProcess ev then ∅ else (recorded ev).getD (lastVerdicts tr) := by
  rw [lastVerdicts, List.foldl_append]
  rfl

theorem verdicts_run {a : Section} {t : Tid} (h : recorded (.locked t a) = none) (m : Memory) :
    (a.run m).orphanVerdicts = m.orphanVerdicts := by
  obtain ⟨-, he | ⟨v, rfl⟩⟩ := Section.owned_run a m
  · exact he
  · cases h

/-- The verdicts after any event. -/
theorem verdicts_after {ev : Ev} {s s' : State} (ha : apply ev s = some s') :
    s'.mem.orphanVerdicts
      = if EndsProcess ev then ∅ else (recorded ev).getD s.mem.orphanVerdicts := by
  cases ev with
  | locked t a =>
    cases ha
    cases hr : recorded (.locked t a) with
    | none => exact verdicts_run hr s.mem
    | some v =>
      cases a with
      | setVerdicts v' =>
        cases hr
        rfl
      | _ => cases hr
  | crashed =>
    simp only [apply] at ha
    split at ha
    · cases ha
    · cases ha
      rfl
  | finished t op r =>
    cases t with
    | boot =>
      cases ha
      cases r <;> rfl
    | _ =>
      cases ha
      rfl
  | started t op | read t | asked t e r =>
    obtain ⟨hm, -⟩ | ⟨u, a, he, -⟩ | ⟨he, -⟩ := (effect ha).tables
    · rw [hm]
      rfl
    · cases he
    · cases he

theorem Runs.orphanVerdicts_eq (h : Runs cfg file tr x) :
    x.shared.mem.orphanVerdicts = lastVerdicts tr := by
  induction h with
  | nil => rfl
  | @snoc tr x ev x' h hs ih => rw [lastVerdicts_snoc, ← ih, verdicts_after (Step.apply hs)]

/-- Only the scan records verdicts. -/
theorem Runs.recorded_none {ev : Ev} (h : Runs cfg file tr x) (hs : Step (machine cfg) x ev x')
    (htid : ev.tid ≠ some .orphanScan) : recorded ev = none := by
  cases ev with
  | locked t a =>
    obtain ⟨op, hop, hmay⟩ := h.mayEnter hs
    cases a with
    | setVerdicts v =>
      cases op with
      | orphanScan =>
        obtain ⟨-, he⟩ | hm := h.mayCall hop
        · cases he
        · cases t with
          | orphanScan => exact absurd rfl htid
          | _ => cases hm
      | updatePod pod =>
        obtain he | hc := hmay
        · cases he
        · cases hc
      | _ => cases hmay
    | _ => rfl
  | _ => rfl

/-- While a scan goes on, the verdicts stay those it has read. -/
theorem Runs.verdicts_since {l₁ l₂ : List Entry} {ev : Ev} {s : State} (h : Runs cfg file tr x)
    (hj : journal cfg file .orphanScan tr = l₁ ++ (ev, s) :: l₂)
    (hno : ∀ e ∈ (ev, s) :: l₂, recorded e.1 = none) :
    x.shared.mem.orphanVerdicts = s.mem.orphanVerdicts := by
  have hj' : (machine cfg).journal .orphanScan [] (State.initial file) tr = l₁ ++ (ev, s) :: l₂ :=
    hj
  have hkeep : ∀ {tr x ev x'}, Runs cfg file tr x → Step (machine cfg) x ev x' →
      x.shared.phase = .up → ev ≠ .crashed → recorded ev = none →
      x'.shared.mem.orphanVerdicts = x.shared.mem.orphanVerdicts := by
    intro tr x ev x' h hs hup hcrash hr
    have hend : ¬ EndsProcess ev := fun hend => by
      rw [booting_of_ends hend (h.next hs).1 hcrash] at hup
      cases hup
    rw [verdicts_after (Step.apply hs), if_neg hend, hr]
    rfl
  refine Run.journal_keeps (f := fun s => s.mem.orphanVerdicts)
    (T := fun ev => recorded ev ≠ none) h ?_ ?_ hj' fun e he => not_not_intro (hno e he)
  · intro tr x ev x' h hs htid hres hno
    have hrun : Runs cfg file tr x := h
    obtain ⟨hb, -⟩ | ⟨-, hup⟩ := (hrun.next hs).1.up_or_booting (hrun.next hs).2 htid
    · cases hb
    · refine hkeep h hs hup ?_ (not_not.mp hno)
      rintro rfl
      cases htid
  · intro tr x ev x' h hs htid hres hne
    have hrun : Runs cfg file tr x := h
    refine hkeep h hs (hrun.up_of_journal (t := .orphanScan) nofun hne) ?_
      (hrun.recorded_none hs htid)
    rintro rfl
    exact hres trivial

/-! ## Whole runs -/

/-- The verdicts a scan has read are still there when it records its own. -/
theorem Runs.verdicts_read (h : Runs cfg file tr x)
    (hat : ScanAt (journal cfg file .orphanScan tr) listed m order ids)
    (hnone : ∀ e ∈ journal cfg file .orphanScan tr, recorded e.1 = none) :
    m.orphanVerdicts = lastVerdicts tr := by
  obtain ⟨s₁, s₂, s₃, rest, hj, rfl⟩ := hat.saw
  have hj₃ : journal cfg file .orphanScan tr = [(.asked .orphanScan .sendList (), s₁),
      (.asked .orphanScan .sandboxes (.ok listed), s₂)] ++ (.read .orphanScan, s₃) :: rest := hj
  rw [← h.orphanVerdicts_eq, h.verdicts_since hj₃ fun e he => hnone e ?_]
  rw [hj₃]
  exact List.mem_append_right _ he

/-- The tables a scan has read name no id twice. -/
theorem Runs.distinct_saw (h : Runs cfg file tr x) (hf : file.content.Distinct)
    (hsaw : ScanSaw (journal cfg file .orphanScan tr) listed m) : m.all.Distinct := by
  obtain ⟨s₁, s₂, s₃, rest, hj, rfl⟩ := hsaw
  have hj₃ : journal cfg file .orphanScan tr = [(.asked .orphanScan .sendList (), s₁),
      (.asked .orphanScan .sandboxes (.ok listed), s₂)] ++ (.read .orphanScan, s₃) :: rest := hj
  obtain ⟨tr₁, tr₂, x₁, x₂, rfl, h₁, rfl, -⟩ := h.entry hj₃
  exact (h₁.distinct hf).seen (State.seen_mem _)

/-- **An orphan scan reports all it should, once each.**  From a file that names no id twice, the
orphans it returns are the listed sandboxes without a claim_ref that no table knows, its stale keys
those whose sandbox is not listed, once each, and, if the node lists no id twice, it records the
deserved verdicts and logs those that the scan before did not have. -/
theorem orphan_scan_exact (h : Runs cfg file tr x) (hf : file.content.Distinct) :
    (∀ orphans stale x', Step (machine cfg) x
        (.finished .orphanScan .orphanScan (.scanned (some (orphans, stale)))) x' →
      ∃ listed m, ScanSaw (journal cfg file .orphanScan tr) listed m ∧
        orphans = listedIds (listed.filter fun s => s.claimRef = "" ∧ s.id ∉ m.all.ids) ∧
        stale.Nodup ∧ ∀ k, k ∈ stale ↔ Stale listed m k) ∧
    ∀ v x', Step (machine cfg) x (.locked .orphanScan (.setVerdicts v)) x' →
      ∃ listed m order ids, ScanAt (journal cfg file .orphanScan tr) listed m order ids ∧
        ((listedIds listed).Nodup →
          (∀ id d, v.lookup id = some d ↔ Deserves listed m id d) ∧
          (scanRecord m (claimedTable m order) listed (unlisted listed ids)).lines.Nodup ∧
          ∀ id d,
            (id, d) ∈ (scanRecord m (claimedTable m order) listed (unlisted listed ids)).lines ↔
              v.lookup id = some d ∧ (lastVerdicts tr).lookup id ≠ some d) := by
  refine ⟨fun orphans stale x' hs => ?_, fun v x' hs => ?_⟩
  · obtain ⟨listed, m, order, ids, hat, rfl, rfl⟩ :=
      h.finished (follows_report cfg) hs _ rfl orphans stale rfl
    exact ⟨listed, m, hat.saw, orphans_eq hat.rangesClaims, nodup_staleKeys hat.rangesClaimed,
      fun k => mem_staleKeys (h.distinct_saw hf hat.saw) hat.rangesClaims hat.rangesClaimed⟩
  · obtain ⟨op, -, htext⟩ := h.locked (follows_report cfg) hs
    obtain ⟨listed, m, order, ids, hat, hnone, rfl⟩ := htext _ _ rfl
    refine ⟨listed, m, order, ids, hat, fun hnd => ?_⟩
    rw [← h.verdicts_read hat hnone]
    exact scanRecord_exact hnd hat.rangesClaims hat.rangesClaimed

/-- A sandbox is claimed after the listing: its key, and no other, is reported stale. -/
theorem orphan_scan_exact_of_fresh_claim : ∃ tr x x' listed m, Runs fullConfig .absent tr x ∧
    Step (machine fullConfig) x
      (.finished .orphanScan .orphanScan (.scanned (some ([], ["ns/p"])))) x' ∧
    ScanSaw (journal fullConfig .absent .orphanScan tr) listed m ∧
    ∀ k, k ∈ ["ns/p"] ↔ Stale listed m k := by
  obtain ⟨tr, x, ev, x', h, hstep, hev⟩ := exists_step fullConfig .absent claimedMeanwhile
    (.move .orphanScan (World.reply {})) (fun _ _ ev => scanReport ev = some ([], ["ns/p"]))
    (by decide +kernel)
  obtain rfl := scanReport_eq_some hev
  obtain ⟨listed, m, hsaw, -, -, hstale⟩ :=
    (orphan_scan_exact h StateFile.distinct_empty).1 [] ["ns/p"] x' hstep
  exact ⟨tr, x, x', listed, m, h, hstep, hsaw, hstale⟩

end VkSandbox
