import VkSandbox.Properties.Scenario
import VkSandbox.Provider.Journals

/-!
# Properties/Scans — when a verdict of the orphan scan is true

`OrphanScan` lists the node first and looks at its tables afterwards:

    sendList … (the node lists) … reply … (claims, releases) … snapshot … verdicts

A verdict puts the listing and the snapshot together.  It is true at the moment of the listing if
nothing it is about has moved in between: no row of an unlisted sandbox has come, and no listed
sandbox has left the tables.
-/

namespace VkSandbox

open Interleave Interleave.Prog

variable {cfg : Config} {file : File} {tr : List Ev} {l : List Entry}
  {x y z : Interleave.Config State Memory Section Request Reply Tid Op Outcome}

/-! ## sandboxd -/

/-- sandboxd as it is: which sandboxes are live when a run has come so far, and at which moment of
the run a listing that is answered now was taken. -/
structure Node where
  live : List Ev → Finset String
  listedAt : List Ev → List Ev

/-- **sandboxd lists what is live**: every listing shows the sandboxes live at one moment of the
call, since which its caller has done nothing. -/
def Node.Honest (node : Node) (tr : List Ev) : Prop :=
  ∀ t tr₁ listed tr₂, tr = tr₁ ++ .asked t .sandboxes (.ok listed) :: tr₂ →
    ∃ rest, tr₁ = node.listedAt tr₁ ++ rest ∧ (∀ ev ∈ rest, ev.tid ≠ some t) ∧
      ∀ id, id ∈ node.live (node.listedAt tr₁) ↔ id ∈ listedIds listed

/-! ## What a scan goes by -/

/-- A key whose sandbox the listing lacks. -/
def Stale (listed : List SandboxSummary) (m : Memory) (k : Key) : Prop :=
  ∃ c, m.claims.lookup k = some c ∧ c.id ∉ listedIds listed

/-- A listed sandbox the tables know nothing of. -/
def Unbound (listed : List SandboxSummary) (m : Memory) (id : String) : Prop :=
  id ∈ listedIds listed ∧ id ∉ m.all.ids

/-- The scan has listed the node and looked at its tables. -/
def ScanSaw (l : List Entry) (listed : List SandboxSummary) (m : Memory) : Prop :=
  ∃ s₁ s₂ s₃ rest, l = (.asked .orphanScan .sendList (), s₁) ::
    (.asked .orphanScan .sandboxes (.ok listed), s₂) :: (.read .orphanScan, s₃) :: rest ∧ m = s₃.mem

/-- What a scan records. -/
def ScanText (l : List Entry) (ev : Ev) (_ : State) : Prop :=
  match ev with
  | .locked _ (.setVerdicts v) => ∃ listed m, ScanSaw l listed m ∧
      ∀ id, v.lookup id = some .external → Unbound listed m id
  | _ => True

/-- What a scan reports. -/
def ScanDone (l : List Entry) (r : Option (List String × List Key)) : Prop :=
  ∀ orphans stale, r = some (orphans, stale) → ∃ listed m, ScanSaw l listed m ∧
    (∀ k ∈ stale, Stale listed m k) ∧ ∀ id ∈ orphans, Unbound listed m id

/-! ## The tables a scan builds -/

/-- The ids of the tables, with their keys. -/
def claimedTable (m : Memory) (order : List Key) : Table String Key :=
  Table.build (fun key => m.claims.lookup key) (fun _ c => c.id) (fun key _ => key) order ∅

theorem lookup_claimedTable {m : Memory} {order : List Key} {id : String} {k : Key}
    (h : (claimedTable m order).lookup id = some k) :
    ∃ c, m.claims.lookup k = some c ∧ c.id = id := by
  obtain h | ⟨k', -, c, hc, hid, rfl⟩ := Table.lookup_build h
  · simp at h
  · exact ⟨c, hc, hid⟩

/-- A listed sandbox with a verdict is in no table. -/
theorem listedVerdict_unbound {listed : List SandboxSummary} {m : Memory} {order : List Key}
    {s : SandboxSummary} {v : OrphanVerdict} (hs : s ∈ listed)
    (hord : order.toFinset = m.claims.keys)
    (h : listedVerdict (claimedTable m order) m.releasing s = some v) : Unbound listed m s.id := by
  refine ⟨List.mem_map.mpr ⟨s, hs, rfl⟩, fun hid => ?_⟩
  simp only [listedVerdict] at h
  split at h
  · cases h
  next hno =>
  simp only [Bool.or_eq_true, not_or] at hno
  obtain ⟨cr, ⟨k, c, hk, rfl⟩ | ⟨c, hc, rfl⟩, he⟩ := StateFile.mem_ids.mp hid
  · have hk' : k ∈ order := by
      rw [← List.mem_toFinset, hord]
      exact Finmap.mem_keys.mpr (Finmap.mem_of_lookup_eq_some hk)
    have hsome : ((claimedTable m order).lookup c.id).isSome :=
      Table.isSome_build (g := fun key => m.claims.lookup key) hk' hk
    rw [show c.id = s.id from he] at hsome
    exact hno.1 hsome
  · exact hno.2 (List.any_eq_true.mpr ⟨c, hc, decide_eq_true he⟩)

/-- The verdicts on the listed sandboxes. -/
def listedTable (m : Memory) (order : List Key) (listed : List SandboxSummary) :
    Table String OrphanVerdict :=
  Table.build (listedVerdict (claimedTable m order) m.releasing) (fun s _ => s.id) (fun _ v => v)
    listed ∅

/-- A sandbox recorded as external is in no table. -/
theorem unbound_of_external {listed : List SandboxSummary} {m : Memory} {order : List Key}
    {stale : List String} {id : String} (hord : order.toFinset = m.claims.keys)
    (h : (stale.foldl (fun t id => t.insert id OrphanVerdict.stale)
      (listedTable m order listed)).lookup id = some .external) : Unbound listed m id := by
  have hstale : stale.foldl (fun t id => t.insert id OrphanVerdict.stale)
      (listedTable m order listed)
      = Table.build some (fun i _ => i) (fun _ _ => .stale) stale (listedTable m order listed) :=
    Table.foldl_eq_build (fun _ _ _ _ => rfl) nofun
  rw [hstale] at h
  obtain h | ⟨i, -, _, -, -, he⟩ := Table.lookup_build h
  · obtain h | ⟨s, hs, v, hv, rfl, -⟩ := Table.lookup_build h
    · simp at h
    · exact listedVerdict_unbound hs hord hv
  · cases he

/-! ## The text of a scan -/

theorem text_orphanScan : Text cfg .orphanScan ScanText ScanDone (orphanScan cfg) [] := by
  unfold orphanScan
  split
  · exact nofun
  unfold sandboxes
  refine Text.request fun _ s₁ _ _ => ⟨trivial, Text.request fun r s₂ _ _ => ⟨trivial, ?_⟩⟩
  cases r with
  | error err => exact nofun
  | ok listed =>
    refine Text.look fun s₃ => ⟨trivial, Text.request fun order s₄ _ hs₄ => ⟨trivial, ?_⟩⟩
    have hord : order.toFinset = s₃.mem.claims.keys := by
      simp only [answer] at hs₄
      split at hs₄
      · next h => exact h.2
      · cases hs₄
    -- the loops of the source, as tables built row by row
    dsimp only
    generalize hclaimed : List.foldl _ (∅ : Table String Key) order = claimed
    obtain rfl : claimedTable s₃.mem order = claimed := hclaimed ▸
      (Table.foldl_eq_build (fun _ _ _ h => by simp only [id_eq, h])
        (fun _ _ h => by simp only [id_eq, h])).symm
    generalize hverdicts : List.foldl _ (∅ : Table String OrphanVerdict) listed = verdicts
    obtain rfl : listedTable s₃.mem order listed = verdicts := hverdicts ▸
      (Table.foldl_eq_build (fun _ _ _ h => by simp only [id_eq, h])
        (fun _ _ h => by simp only [id_eq, h])).symm
    refine Text.request fun ids s₅ _ hs₅ => ⟨trivial, ?_⟩
    refine Text.enter fun s₆ => ⟨⟨listed, s₃.mem, ⟨_, _, _, _, rfl, rfl⟩,
      fun id => unbound_of_external hord⟩, ?_⟩
    intro orphans stale he
    cases he
    refine ⟨listed, s₃.mem, ⟨_, _, _, _, rfl, rfl⟩, fun k hk => ?_, fun id hid => ?_⟩
    · obtain ⟨id, hid, hk⟩ := List.mem_filterMap.mp hk
      obtain ⟨c, hc, rfl⟩ := lookup_claimedTable hk
      refine ⟨c, hc, fun hm => ?_⟩
      have hnone := (List.mem_filter.mp hid).2
      rw [Option.isNone_iff_eq_none] at hnone
      rw [← isSome_lookup_liveDeadlines, hnone] at hm
      cases hm
    · obtain ⟨sum, hsum, rfl⟩ := List.mem_map.mp hid
      obtain ⟨hsum, hv⟩ := List.mem_filter.mp hsum
      exact listedVerdict_unbound hsum hord (of_decide_eq_true hv)

/-- What a scan that returns reports. -/
def ScanOutcome (l : List Entry) : Outcome → Prop
  | .scanned r => ScanDone l r
  | _ => True

theorem follows_orphanScan (cfg : Config) :
    Follows cfg .orphanScan (fun _ => ScanText) (fun _ => ScanOutcome) := by
  intro op s s' h
  obtain ⟨he, -⟩ | hm := mayCall_of_started h
  · cases he
  · cases op with
    | orphanScan => exact Machine.Follows.map text_orphanScan
    | _ => simp [mayCall] at hm

/-- The scan's thread runs nothing but the scan. -/
theorem Runs.inCall_orphanScan {op : Op} (h : Runs cfg file tr x) (hop : InCall x .orphanScan op) :
    op = .orphanScan := by
  obtain ⟨tr₁, tr₂, rfl⟩ := List.append_of_mem (h.started_inCall hop)
  obtain ⟨x₁, x₂, -, hs, -⟩ := Run.split h
  have ha : apply (.started .orphanScan op) x₁.shared = some x₂.shared := Step.apply hs
  obtain ⟨he, -⟩ | hm := mayCall_of_started ha
  · cases he
  · cases op with
    | orphanScan => rfl
    | _ => simp [mayCall] at hm

/-! ## Between the listing and the snapshot -/

/-- **A section that keeps what a listing is compared with**: it puts in no row of an unlisted
sandbox and takes no listed sandbox out of the tables. -/
def KeepsJudged (listed : List String) (ev : Ev) (s : State) : Prop :=
  ∀ t a, ev = .locked t a →
    (∀ k c', (a.run s.mem).claims.lookup k = some c' → c'.id ∉ listed →
      ∃ c, s.row k = some c ∧ c.id = c'.id) ∧
    ∀ id ∈ listed, id ∈ s.mem.all.ids → id ∈ (a.run s.mem).all.ids

/-- **Every scan is left alone between its listing and its snapshot.** -/
def Undisturbed (cfg : Config) (file : File) (node : Node) (tr : List Ev) : Prop :=
  ∀ tr₁ listed tr₂ tr₃,
    tr = tr₁ ++ .asked .orphanScan .sandboxes (.ok listed) :: tr₂ ++ .read .orphanScan :: tr₃ →
    (∀ ev ∈ tr₂, ev.tid ≠ some .orphanScan) →
    ∀ tr₄ ev tr₅ y, tr₁ ++ .asked .orphanScan .sandboxes (.ok listed) :: tr₂ = tr₄ ++ ev :: tr₅ →
      node.listedAt tr₁ <+: tr₄ → Runs cfg file tr₄ y →
      KeepsJudged (listedIds listed) ev y.shared

/-- What a stretch of a run leaves of the comparison. -/
structure Comparable (listed : List String) (s s' : State) : Prop where
  rows : ∀ {k c'}, s'.row k = some c' → c'.id ∉ listed → ∃ c, s.row k = some c ∧ c.id = c'.id
  held : ∀ {id}, id ∈ listed → id ∈ s.mem.all.ids → id ∈ s'.mem.all.ids

theorem Comparable.refl (listed : List String) (s : State) : Comparable listed s s :=
  ⟨fun h _ => ⟨_, h, rfl⟩, fun _ h => h⟩

theorem Comparable.trans {listed : List String} {s₁ s₂ s₃ : State} (h : Comparable listed s₁ s₂)
    (h' : Comparable listed s₂ s₃) : Comparable listed s₁ s₃ where
  rows := fun hc hn => by
    obtain ⟨c₂, hc₂, he⟩ := h'.rows hc hn
    obtain ⟨c₁, hc₁, he'⟩ := h.rows hc₂ (by rwa [he])
    exact ⟨c₁, hc₁, he'.trans he⟩
  held := fun hl hid => h'.held hl (h.held hl hid)

theorem Runs.comparable {w : List Ev} {listed : List String} (h : Runs cfg file tr x)
    (h' : Run (machine cfg) x w y) (hup : x.shared.phase = .up) (hno : ∀ ev ∈ w, ev ≠ .crashed)
    (hk : ∀ w₁ ev w₂ z, w = w₁ ++ ev :: w₂ → Runs cfg file (tr ++ w₁) z →
      KeepsJudged listed ev z.shared) : Comparable listed x.shared y.shared := by
  induction h' with
  | nil => exact .refl _ _
  | @snoc w x₁ ev x₂ h₁ hs ih =>
    have hno₁ : ∀ ev ∈ w, ev ≠ .crashed := fun ev hev => hno ev (List.mem_append_left _ hev)
    have hold := ih hno₁ fun w₁ ev' w₂ z hw hz => hk w₁ ev' (w₂ ++ [ev]) z (by simp [hw]) hz
    have hrun : Runs cfg file (tr ++ w) x₁ := Run.append h h₁
    obtain ⟨hg, ha⟩ := hrun.next hs
    refine hold.trans ?_
    obtain ⟨hm, -⟩ | ⟨t, a, rfl, hm, -⟩ | ⟨hend, -⟩ := (effect ha).tables
    · refine ⟨fun hc _ => ⟨_, ?_, rfl⟩, fun _ hid => ?_⟩
      · rwa [State.row, hm] at hc
      · rwa [hm]
    · obtain ⟨hrows, hheld⟩ := hk w _ [] x₁ rfl hrun t a rfl
      refine ⟨fun hc hn => hrows _ _ ?_ hn, fun hl hid => ?_⟩
      · rwa [State.row, hm] at hc
      · rw [hm]
        exact hheld _ hl hid
    · have hboot := booting_of_ends hend hg (hno ev (by simp))
      rw [(h.evolves h₁ hup hno₁).phase, hup] at hboot
      cases hboot

/-! ## The instant of a verdict -/

/-- A moment of the scan in progress at the end of a trace. -/
structure Amid (cfg : Config) (file : File) (tr tr₀ : List Ev)
    (y : Interleave.Config State Memory Section Request Reply Tid Op Outcome) : Prop where
  run : Runs cfg file tr₀ y
  inCall : InCall y .orphanScan .orphanScan
  rest : ∃ rest, tr = tr₀ ++ rest ∧ ∀ ev ∈ rest, ¬ ev.Resets .orphanScan

/-- **The moment of the listing**: what the scan went by was true then. -/
theorem Runs.listing_moment {node : Node} {listed : List SandboxSummary} {m : Memory}
    (h : Runs cfg file tr x) (hn : node.Honest tr) (hC : Undisturbed cfg file node tr)
    (hsaw : ScanSaw (journal cfg file .orphanScan tr) listed m) :
    ∃ tr₀ y, Amid cfg file tr tr₀ y ∧
      (∀ id, id ∈ node.live tr₀ ↔ id ∈ listedIds listed) ∧
      (∀ k, Stale listed m k → ∃ c, y.shared.row k = some c ∧ c.id ∉ listedIds listed) ∧
      ∀ id, Unbound listed m id → id ∉ y.shared.mem.all.ids := by
  obtain ⟨s₁, s₂, s₃, rest, hj, rfl⟩ := hsaw
  have hj₃ : journal cfg file .orphanScan tr = [(.asked .orphanScan .sendList (), s₁),
      (.asked .orphanScan .sandboxes (.ok listed), s₂)] ++ (.read .orphanScan, s₃) :: rest := hj
  obtain ⟨trb, trc, xb, xb', rfl, hb, rfl, hjb, -, -, hnoc⟩ := h.entry hj₃
  have hj₂ : journal cfg file .orphanScan trb = [(.asked .orphanScan .sendList (), s₁)] ++
      [(.asked .orphanScan .sandboxes (.ok listed), s₂)] := hjb
  obtain ⟨tra, tr₂, xa, xa', rfl, ha, -, hja, hsa, hrest, hno₂, hquiet₂⟩ := hb.last_entry hj₂
  obtain ⟨quiet, hsplit, hquiet, hlive⟩ :=
    hn .orphanScan tra listed (tr₂ ++ .read .orphanScan :: trc)
    (by simp)
  have ha' : Runs cfg file (node.listedAt tra ++ quiet) xa := hsplit ▸ ha
  obtain ⟨y, hy, hya⟩ := Run.cut ha'
  have hyrun : Runs cfg file (node.listedAt tra) y := hy
  have hja' : journal cfg file .orphanScan (node.listedAt tra ++ quiet)
      = [(.asked .orphanScan .sendList (), s₁)] := hsplit ▸ hja
  obtain ⟨hjy, hnoq⟩ := hyrun.journal_quiet hya hquiet (by rw [hja']; nofun)
  rw [hja'] at hjy
  have hmem : ((.asked .orphanScan .sendList (), s₁) : Entry) ∈
      journal cfg file .orphanScan (node.listedAt tra) := by rw [← hjy]; simp
  obtain ⟨op, hop⟩ := hyrun.inCall hmem
  obtain rfl := hyrun.inCall_orphanScan hop
  have hup : y.shared.phase = .up :=
    hyrun.up_of_journal (t := .orphanScan) nofun (by rw [← hjy]; nofun)
  -- from the listing to the snapshot
  have hwindow : Run (machine cfg) y
      (quiet ++ .asked .orphanScan .sandboxes (.ok listed) :: tr₂) xb :=
    Run.append hya (Run.append (Run.nil.snoc hsa) hrest)
  have hno : ∀ ev ∈ quiet ++ .asked .orphanScan .sandboxes (.ok listed) :: tr₂,
      ¬ ev.Resets .orphanScan := by
    intro ev hev
    rcases List.mem_append.mp hev with hev | hev
    · exact hnoq ev hev
    · rcases List.mem_cons.mp hev with rfl | hev
      · exact id
      · exact hno₂ ev hev
  have hcmp : Comparable (listedIds listed) y.shared xb.shared := by
    refine hyrun.comparable hwindow hup (not_crashed_of_resets hno) fun w₁ ev w₂ z hw hz => ?_
    refine hC tra listed tr₂ trc rfl hquiet₂ (node.listedAt tra ++ w₁) ev w₂ z ?_ ⟨w₁, rfl⟩ hz
    rw [List.append_assoc, ← hw, ← List.append_assoc, ← hsplit]
  refine ⟨node.listedAt tra, y, ⟨hyrun, hop, ?_⟩, hlive, ?_, ?_⟩
  · refine ⟨quiet ++ .asked .orphanScan .sandboxes (.ok listed) :: tr₂ ++ .read .orphanScan :: trc,
      ?_, ?_⟩
    · nth_rewrite 1 [hsplit]
      simp
    · intro ev hev
      rcases List.mem_append.mp hev with hev | hev
      · exact hno ev hev
      · rcases List.mem_cons.mp hev with rfl | hev
        · exact id
        · exact hnoc ev hev
  · rintro k ⟨c, hc, hn⟩
    obtain ⟨c₀, hc₀, he⟩ := hcmp.rows hc hn
    exact ⟨c₀, hc₀, by rwa [he]⟩
  · rintro id ⟨hl, hid⟩ hheld
    exact hid (hcmp.held hl hheld)

/-- **A verdict of the orphan scan is true at some instant of the scan**, if it is left alone
between its listing and its snapshot: a key reported stale was claimed then and its sandbox not
live, and a sandbox reported orphan or recorded external was live then and in no table. -/
theorem scan_verdicts_true {node : Node} (h : Runs cfg file tr x) (hn : node.Honest tr)
    (hC : Undisturbed cfg file node tr) :
    (∀ orphans stale x', Step (machine cfg) x
        (.finished .orphanScan .orphanScan (.scanned (some (orphans, stale)))) x' →
      (∀ k ∈ stale, ∃ tr₀ y c, Amid cfg file tr tr₀ y ∧ y.shared.row k = some c ∧
        c.id ∉ node.live tr₀) ∧
      ∀ id ∈ orphans, ∃ tr₀ y, Amid cfg file tr tr₀ y ∧ id ∈ node.live tr₀ ∧
        id ∉ y.shared.mem.all.ids) ∧
    ∀ v x', Step (machine cfg) x (.locked .orphanScan (.setVerdicts v)) x' →
      ∀ id, v.lookup id = some .external → ∃ tr₀ y, Amid cfg file tr tr₀ y ∧ id ∈ node.live tr₀ ∧
        id ∉ y.shared.mem.all.ids := by
  constructor
  · intro orphans stale x' hstep
    have hout : ScanDone (journal cfg file .orphanScan tr) (some (orphans, stale)) :=
      h.finished (follows_orphanScan cfg) hstep
    obtain ⟨listed, m, hsaw, hstale, horphans⟩ := hout orphans stale rfl
    obtain ⟨tr₀, y, hamid, hlive, hs, hu⟩ := h.listing_moment hn hC hsaw
    refine ⟨fun k hk => ?_, fun id hid => ?_⟩
    · obtain ⟨c, hc, hnot⟩ := hs k (hstale k hk)
      exact ⟨tr₀, y, c, hamid, hc, fun hl => hnot ((hlive _).mp hl)⟩
    · have hub := horphans id hid
      exact ⟨tr₀, y, hamid, (hlive id).mpr hub.1, hu id hub⟩
  · intro v x' hstep id hid
    obtain ⟨op, -, listed, m, hsaw, hext⟩ := h.locked (follows_orphanScan cfg) hstep
    obtain ⟨tr₀, y, hamid, hlive, -, hu⟩ := h.listing_moment hn hC hsaw
    exact ⟨tr₀, y, hamid, (hlive id).mpr (hext id hid).1, hu id (hext id hid)⟩

/-! ## A node to scan -/

/-- What a sandbox claimed or released does to the live ones. -/
def tally (live : Finset String) : Ev → Finset String
  | .asked _ (.claim _) (.ok r) => insert r.id live
  | .asked _ (.release id _) (.ok _) => live.erase id
  | _ => live

/-- A node that starts empty, runs what is claimed until it is released, and answers at once. -/
def tallied : Node := ⟨fun tr => tr.foldl tally ∅, id⟩

/-- The listing an event brings. -/
def listingOf : Ev → Option (Tid × List SandboxSummary)
  | .asked t .sandboxes (.ok listed) => some (t, listed)
  | _ => none

/-- A listing shows what is live. -/
def ListsLive (tr : List Ev) (_ : State) (ev : Ev) : Prop :=
  ∀ e ∈ listingOf ev, tallied.live tr = (listedIds e.2).toFinset

instance (tr : List Ev) (s : State) (ev : Ev) : Decidable (ListsLive tr s ev) :=
  inferInstanceAs (Decidable (∀ e ∈ _, _))

theorem Runs.honest_tallied (h : Runs cfg file tr x) (hl : Throughout cfg file ListsLive tr) :
    tallied.Honest tr := by
  rintro t tr₁ listed tr₂ rfl
  obtain ⟨x₁, -, h₁, -⟩ := Run.split h
  refine ⟨[], (List.append_nil tr₁).symm, List.forall_mem_nil _, fun id => ?_⟩
  have hlists : ListsLive tr₁ x₁.shared (.asked t .sandboxes (.ok listed)) := hl tr₁ _ tr₂ x₁ rfl h₁
  have heq : tallied.live tr₁ = (listedIds listed).toFinset := hlists (t, listed) rfl
  change id ∈ tallied.live tr₁ ↔ _
  rw [heq, List.mem_toFinset]

/-- No other thread enters a write-locked section once the scan has its listing. -/
def LeftAlone (tr : List Ev) (_ : State) (ev : Ev) : Prop :=
  (match ev with
  | .locked t _ => decide (t = .orphanScan) ||
      !tr.any fun e => (listingOf e).any fun p => decide (p.1 = .orphanScan)
  | _ => true) = true

instance (tr : List Ev) (s : State) (ev : Ev) : Decidable (LeftAlone tr s ev) :=
  inferInstanceAs (Decidable ((_ : Bool) = true))

theorem undisturbed_of_leftAlone (hl : Throughout cfg file LeftAlone tr) :
    Undisturbed cfg file tallied tr := by
  rintro tr₁ listed tr₂ tr₃ rfl hquiet tr₄ ev tr₅ y hsplit hpre hy t a rfl
  exfalso
  have halone : LeftAlone tr₄ y.shared (.locked t a) := by
    refine hl tr₄ _ (tr₅ ++ .read .orphanScan :: tr₃) y ?_ hy
    rw [hsplit]
    simp
  obtain ⟨w, rfl⟩ : tr₁ <+: tr₄ := hpre
  rw [List.append_assoc, List.append_cancel_left_eq] at hsplit
  cases w with
  | nil => cases hsplit
  | cons e w =>
    obtain ⟨rfl, rfl⟩ := List.cons.inj hsplit
    have hne : t ≠ .orphanScan := fun he =>
      hquiet (.locked t a) (by simp) (congrArg some he)
    simp [LeftAlone, hne, listingOf] at halone

/-- The keys a scan reports stale, and the sandboxes it reports orphans. -/
def scanReport : Ev → Option (List String × List Key)
  | .finished .orphanScan .orphanScan (.scanned r) => r
  | _ => none

theorem scanReport_eq_some {ev : Ev} {r : List String × List Key} (h : scanReport ev = some r) :
    ev = .finished .orphanScan .orphanScan (.scanned (some r)) := by
  unfold scanReport at h
  split at h
  · rw [h]
  · cases h

/-- A state file with one row. -/
def lostRow : StateFile := sampleFile "ns/p" (sampleClaim "s1" (samplePod "p" "uid-1" []))

/-- The provider starts from a file with a row whose sandbox the node has lost, and scans. -/
def lostSandbox : Schedule :=
  call .boot .new 14
    { file := .decoded lostRow
      listed := .error "down" } ++
  call .orphanScan .orphanScan 4 { order := ["ns/p"] } ++ steps .orphanScan 2 { order := ["s1"] }

/-- A run in which a scan reports the lost sandbox. -/
theorem scan_verdicts_true_of_lost_sandbox : ∃ tr x x',
    Runs fullConfig (.table lostRow) tr x ∧
    tallied.Honest tr ∧
    Undisturbed fullConfig (.table lostRow) tallied tr ∧
    Step (machine fullConfig) x
      (.finished .orphanScan .orphanScan (.scanned (some ([], ["ns/p"])))) x' ∧
    ∃ tr₀ y c, Amid fullConfig (.table lostRow) tr tr₀ y ∧ y.shared.row "ns/p" = some c ∧
      c.id ∉ tallied.live tr₀ := by
  obtain ⟨tr, x, ev, x', h, hstep, hlist, halone, hev⟩ := exists_step fullConfig
    (.table lostRow) lostSandbox (.move .orphanScan (World.reply {}))
    (fun tr _ ev => checkThroughout fullConfig (.table lostRow) ListsLive tr = true ∧
        checkThroughout fullConfig (.table lostRow) LeftAlone tr = true ∧
        scanReport ev = some ([], ["ns/p"]))
    (by decide +kernel)
  obtain rfl := scanReport_eq_some hev
  have hn : tallied.Honest tr := h.honest_tallied (.of_check hlist)
  have hC : Undisturbed fullConfig (.table lostRow) tallied tr :=
    undisturbed_of_leftAlone (.of_check halone)
  exact ⟨tr, x, x', h, hn, hC, hstep,
    ((scan_verdicts_true h hn hC).1 [] ["ns/p"] x' hstep).1 "ns/p" (by simp)⟩

/-- A sandbox is claimed between a scan's listing and its snapshot. -/
def claimedMeanwhile : Schedule :=
  call .boot .new 10 {} ++ call .orphanScan .orphanScan 2 {} ++
  call (.lifecycle "ns/p") (.createPod (samplePod "p" "uid-1" [])) 17
    { claimed := .ok (sampleResult "s1") } ++
  steps .orphanScan 2 { order := ["ns/p"] } ++ steps .orphanScan 2 { order := ["s1"] }

/-- The row of `ns/p` is of a live sandbox. -/
def RowLive (tr : List Ev) (s : State) (_ : Ev) : Prop :=
  ∀ c ∈ s.row "ns/p", c.id ∈ tallied.live tr

instance (tr : List Ev) (s : State) (ev : Ev) : Decidable (RowLive tr s ev) :=
  inferInstanceAs (Decidable (∀ c ∈ _, _))

/-- **A claim is reported stale whose sandbox was live all along.** -/
theorem live_claim_reported_stale : ∃ tr x x', Runs fullConfig .absent tr x ∧
    tallied.Honest tr ∧
    Step (machine fullConfig) x
      (.finished .orphanScan .orphanScan (.scanned (some ([], ["ns/p"])))) x' ∧
    ∀ tr₀ y c, Amid fullConfig .absent tr tr₀ y → y.shared.row "ns/p" = some c →
      c.id ∈ tallied.live tr₀ := by
  obtain ⟨tr, x, ev, x', h, hstep, hlist, hlive, hev⟩ := exists_step fullConfig .absent
    claimedMeanwhile (.move .orphanScan (World.reply {}))
    (fun tr _ ev => checkThroughout fullConfig .absent ListsLive tr = true ∧
        checkThroughout fullConfig .absent RowLive (tr ++ [ev]) = true ∧
        scanReport ev = some ([], ["ns/p"]))
    (by decide +kernel)
  obtain rfl := scanReport_eq_some hev
  have hall : Throughout fullConfig .absent RowLive (tr ++ [_]) := .of_check hlive
  refine ⟨tr, x, x', h, h.honest_tallied (.of_check hlist), hstep, fun tr₀ y c hamid hc => ?_⟩
  obtain ⟨rest, rfl, -⟩ := hamid.rest
  rw [List.append_assoc] at hall
  cases rest with
  | nil => exact hall tr₀ _ [] y rfl hamid.run c hc
  | cons ev rest => exact hall tr₀ ev _ y rfl hamid.run c hc

end VkSandbox
