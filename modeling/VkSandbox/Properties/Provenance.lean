import VkSandbox.Inventory.LiveSource
import VkSandbox.Properties.Conservation
import VkSandbox.Properties.Scenario
import VkSandbox.Properties.Versions
import VkSandbox.Provider.Entries

/-!
# Properties/Provenance — no row says what nobody told

What a row says of its sandbox comes from outside: the id, the token and the address from the reply
to the `Claim` of its own key, the lease end from that reply or from a listing.

    Claim    {id, token, owner_addr, deadline}  ──▸  the row of the claiming key
    list     {id, deadline}                     ──▸  refreshDeadline, settle
    file     a row                              ──▸  the row of the same key

`rows_as_told` says so of every row of every reachable state, of the file and of the release queue,
and `inventory_addresses_as_told` of the addresses the node publishes.
-/

namespace VkSandbox

open Interleave Interleave.Prog

variable {cfg : Config} {file : File} {tr : List Ev} {l : List Entry} {t : Tid} {k : Key}
  {c c' : Claim} {ev : Ev} {s s' : State} {a : Section} {m : Memory} {id : String} {d : Time}
  {x x' : Interleave.Config State Memory Section Request Reply Tid Op Outcome}

/-! ## Which sections date a row -/

/-- The section may give the row of a sandbox the lease end `d`. -/
def Section.Dates : Section → String → Time → Prop
  | .settle _ live, id, d => live.lookup id = some d
  | .refreshDeadline _ id' d', id, d => id' = id ∧ d' = d
  | _, _, _ => False

open Memory in
/-- **Where a row and its lease end come from.** -/
theorem Section.row_dated (h : (a.run m).claims.lookup k = some c') :
    (∃ c, m.claims.lookup k = some c ∧ c.Same c' ∧
      (c'.deadline = c.deadline ∨ a.Dates c'.id c'.deadline)) ∨
      a.Creates k c' := by
  have hsame : m.claims.lookup k = some c' → (∃ c, m.claims.lookup k = some c ∧ c.Same c' ∧
      (c'.deadline = c.deadline ∨ a.Dates c'.id c'.deadline)) ∨ a.Creates k c' :=
    fun h => .inl ⟨c', h, .refl c', .inl rfl⟩
  cases a with
  | settle before live =>
    obtain ⟨c, hc, ⟨-, hs⟩ | ⟨-, rfl⟩⟩ := row_settle.mp h
    · obtain ⟨d, hd, rfl⟩ := Option.map_eq_some_iff.mp hs
      refine .inl ⟨c, hc, ?_⟩
      split
      · exact ⟨⟨rfl, rfl, rfl⟩, .inr hd⟩
      · exact ⟨.refl c, .inl rfl⟩
    · exact hsame hc
  | refreshDeadline key id d =>
    obtain ⟨c, hc, rfl⟩ := row_refreshDeadline.mp h
    refine .inl ⟨c, hc, ?_⟩
    split
    · next he => exact ⟨⟨rfl, rfl, rfl⟩, .inr ⟨he.2.symm, rfl⟩⟩
    · exact ⟨.refl c, .inl rfl⟩
  | preserveClaim key id owner =>
    obtain ⟨c, hc, rfl⟩ := row_preserveClaim.mp h
    refine .inl ⟨c, hc, ?_⟩
    split
    · exact ⟨⟨rfl, rfl, rfl⟩, .inl rfl⟩
    · exact ⟨.refl c, .inl rfl⟩
  | adoptExistingClaim key pod =>
    by_cases hk : k = key
    · subst hk
      simp only [Section.run] at h
      obtain ⟨-, he, -⟩ | ⟨-, he, -⟩ | ⟨c, -, -, -, he, -⟩ | ⟨c, hc, -, -, he, -⟩ :=
        adoptExistingClaim_cases k pod m
      · rw [he] at h; exact hsame h
      · rw [he] at h; exact hsame h
      · rw [he, Finmap.lookup_erase] at h; cases h
      · rw [he, Finmap.lookup_insert] at h
        cases h
        exact .inl ⟨c, hc, ⟨rfl, rfl, rfl⟩, .inl rfl⟩
    · exact hsame (by rwa [Section.run, row_adoptExistingClaim_ne hk] at h)
  | load st now => exact .inr h
  | insertClaim key pod c =>
    obtain ⟨hk, rfl⟩ | ⟨-, hc⟩ := row_insertClaim.mp h
    · exact .inr ⟨hk, rfl⟩
    · exact hsame hc
  | dropClaim key id => exact hsame (row_dropClaim.mp h).1
  | withdrawClaim key id => exact hsame (row_withdrawClaim.mp h).1
  | withdrawForRelease key c => exact hsame (row_withdrawForRelease.mp h).1
  | updatePod key pod =>
    refine hsame ?_
    simp only [Section.run, Memory.updatePod] at h
    split at h <;> exact h
  | setRecheck key r => cases r <;> exact hsame h
  | _ => exact hsame h

/-! ## Lease ends are read off a listing -/

theorem row_of_lookup_liveDeadlines {listed : List SandboxSummary}
    (h : (liveDeadlines listed).lookup id = some d) :
    ∃ row ∈ listed, row.id = id ∧ row.deadline = d := by
  have hbuild : liveDeadlines listed = Table.build some (fun row _ => row.id)
      (fun row _ => row.deadline) listed ∅ :=
    rfl
  rw [hbuild] at h
  obtain h | ⟨row, hrow, _, -, hid, hd⟩ := Table.lookup_build h
  · cases h
  · exact ⟨row, hrow, hid, hd⟩

/-- A section that dates a row has the lease end from a listing of its own call. -/
def DateText (t : Tid) (l : List Entry) (ev : Ev) (_ : State) : Prop :=
  ∀ a id d, ev = .locked t a → a.Dates id d →
    ∃ listed s, (.asked t .sandboxes (.ok listed), s) ∈ l ∧
      ∃ row ∈ listed, row.id = id ∧ row.deadline = d

theorem dateText_read {u : Tid} : DateText t l (.read u) s := fun _ _ _ he => by cases he

theorem dateText_asked {u : Tid} {e : Request} {r : Reply e} : DateText t l (.asked u e r) s :=
  fun _ _ _ he => by cases he

theorem dateText_of_not_dates (h : ∀ u a, ev = .locked u a → ∀ id d, ¬ a.Dates id d) :
    DateText t l ev s :=
  fun a id d he hd => absurd hd (h t a he id d)

theorem dates_verify (l : List Entry) :
    Text cfg t (DateText t) (fun _ _ => True) (verifyClaimsAgainstNode cfg) l := by
  unfold verifyClaimsAgainstNode
  split
  · trivial
  refine Text.look fun s => ⟨dateText_read, ?_⟩
  split
  · trivial
  refine Text.request fun _ _ _ _ => ⟨dateText_asked, ?_⟩
  refine Text.request fun r s _ _ => ⟨dateText_asked, ?_⟩
  cases r with
  | error err => trivial
  | ok listed =>
    refine Text.enter fun s' => ⟨fun a id d he hd => ?_, trivial⟩
    cases he
    exact ⟨listed, s, by simp, row_of_lookup_liveDeadlines hd⟩

theorem dates_settleExpired (key : Key) (l : List Entry) :
    Text cfg t (DateText t) (fun _ _ => True) (settleExpiredClaim cfg key) l := by
  refine Text.look fun s => ⟨dateText_read, ?_⟩
  split
  · trivial
  refine Text.request fun now _ _ _ => ⟨dateText_asked, ?_⟩
  split
  · trivial
  split
  · refine Text.enter fun _ => ⟨fun a id d he hd => ?_, trivial⟩
    cases he
    exact hd.elim
  refine Text.request fun _ _ _ _ => ⟨dateText_asked, ?_⟩
  refine Text.request fun r s _ _ => ⟨dateText_asked, ?_⟩
  cases r with
  | error err => trivial
  | ok listed =>
    dsimp only
    split
    · next row hrow =>
      refine Text.enter fun s' => ⟨fun a id d he hd => ?_, trivial⟩
      cases he
      obtain ⟨rfl, rfl⟩ := hd
      exact ⟨listed, s, by simp, row, List.mem_of_find?_eq_some hrow,
        by simpa using List.find?_some hrow, rfl⟩
    · refine Text.enter fun _ => ⟨fun a id d he hd => ?_, trivial⟩
      cases he
      exact hd.elim

/-- Code that enters no section that dates a row. -/
theorem dates_of_enters {α : Type} {p : Code α} (h : p.Enters fun a => ∀ id d, ¬ a.Dates id d) :
    Text cfg t (DateText t) (fun _ _ => True) p l :=
  Machine.Follows.of_enters h fun _ _ _ => dateText_of_not_dates

theorem undated_recordClaim {pod : Pod} (res : ClaimResult) :
    (recordClaim cfg pod res).Enters fun a => ∀ id d, ¬ a.Dates id d := by
  refine enters_request fun now => .enter (fun _ _ => id) fun _ => ?_
  refine (enters_commitClaim fun _ _ => id).bind fun r => ?_
  cases r with
  | error err =>
    refine enters_release fun r => ?_
    cases r with
    | error err => trivial
    | ok u => exact .enter (fun _ _ => id) fun _ => trivial
  | ok u => exact (enters_notify _).bind fun _ => trivial

/-- `CreatePod` once the row is verified and its lease settled. -/
theorem undated_claimFresh {pod : Pod} : ((clearStrandedClaim pod.key).orReturn fun _ =>
    claimFresh cfg pod).Enters fun a => ∀ id d, ¬ a.Dates id d := by
  refine .orReturn (.look fun m => ?_) fun _ => ?_
  · split
    · trivial
    refine enters_release fun r => ?_
    cases r with
    | error err => trivial
    | ok u => exact .enter (fun _ _ => id) fun _ => trivial
  · unfold claimFresh
    split
    · trivial
    refine enters_request fun _ => enters_request fun r => ?_
    cases r with
    | error err => trivial
    | ok res => exact undated_recordClaim res

theorem dates_createPod {pod : Pod} (l : List Entry) :
    Text cfg t (DateText t) (fun _ _ => True) (createPod cfg pod) l := by
  unfold createPod
  dsimp only
  split
  · trivial
  refine Machine.Follows.orReturn (P := fun _ _ => True) ?_ (fun _ _ _ => trivial) fun l _ _ => ?_
  · refine Text.look fun s => ⟨dateText_read, ?_⟩
    split
    · trivial
    refine Machine.Follows.call (dates_verify _) fun l b _ => ?_
    split <;> trivial
  refine Machine.Follows.orReturn (dates_settleExpired _ l) (fun _ _ _ => trivial) fun l _ _ => ?_
  refine dates_of_enters (.enter (fun _ _ => id) fun m => ?_)
  split
  · exact enters_saveState.bind fun _ => (enters_notify _).bind fun _ => trivial
  · exact undated_claimFresh

/-- The lease ends of `live` are from a listing of the call. -/
def Backed (t : Tid) (live : Table String Time) (l : List Entry) : Prop :=
  ∀ id d, live.lookup id = some d →
    ∃ listed s, (.asked t .sandboxes (.ok listed), s) ∈ l ∧
      ∃ row ∈ listed, row.id = id ∧ row.deadline = d

theorem Backed.snoc {live : Table String Time} (h : Backed t live l) (e : Entry) :
    Backed t live (l ++ [e]) := by
  intro id d hd
  obtain ⟨listed, s, hs, hrow⟩ := h id d hd
  exact ⟨listed, s, List.mem_append_left _ hs, hrow⟩

theorem Backed.notify {live : Table String Time} (h : Backed t live l) (pod : Pod) :
    Text cfg t (DateText t) (fun l' _ => Backed t live l') (notify pod) l := by
  have hkeep : Text cfg t (fun _ _ _ => True) (fun l' _ => Backed t live l')
      (VkSandbox.notify pod) l :=
    Machine.Follows.free h (fun _ _ _ _ => trivial) fun _ e hl => hl.snoc e
  exact ((dates_of_enters (enters_notify pod)).and hkeep).imp (fun _ _ _ h => h.1) fun _ _ h => h.2

/-- The loop of the lease watch refreshes by the listing of its tick. -/
theorem dates_publishLoop {live : Table String Time} (rows : Table Key Claim) (keys : List Key)
    {l : List Entry} (hl : Backed t live l) :
    Text cfg t (DateText t) (fun _ _ => True) (publishLoop cfg rows live keys) l := by
  induction keys generalizing l with
  | nil => trivial
  | cons key rest ih =>
    unfold publishLoop
    split
    · exact ih hl
    split
    · next d hd =>
      refine Text.enter fun s' => ⟨fun a id d he hdate => ?_, ih (hl.snoc _)⟩
      cases he
      obtain ⟨rfl, rfl⟩ := hdate
      exact hl _ _ hd
    refine Text.look fun s' => ⟨dateText_read, ?_⟩
    split
    · dsimp only
      split
      · exact Machine.Follows.call ((hl.snoc _).notify _) fun l _ hl => ih hl
      · exact ih (hl.snoc _)
    · exact ih (hl.snoc _)

theorem dates_publishExpiredLeases (l : List Entry) :
    Text cfg t (DateText t) (fun _ _ => True) (publishExpiredLeases cfg) l := by
  refine Text.request fun now _ _ _ => ⟨dateText_asked, Text.look fun s => ⟨dateText_read, ?_⟩⟩
  split
  · trivial
  split
  · refine Text.request fun order _ _ _ => ⟨dateText_asked, dates_publishLoop _ _ fun id d hd => ?_⟩
    cases hd
  refine Text.request fun _ _ _ _ =>
    ⟨dateText_asked, Text.request fun r s _ _ => ⟨dateText_asked, ?_⟩⟩
  cases r with
  | error err => trivial
  | ok listed =>
    refine Text.request fun order _ _ _ => ⟨dateText_asked, dates_publishLoop _ _ (.snoc ?_ _)⟩
    exact fun id d hd => ⟨listed, s, by simp, row_of_lookup_liveDeadlines hd⟩

theorem follows_dates (cfg : Config) (t : Tid) :
    Follows cfg t (fun _ => DateText t) (fun _ _ _ => True) := by
  intro op s s' _
  have hother : (∀ a, op.MayEnter a → ∀ id d, ¬ a.Dates id d) →
      Text cfg t (DateText t) (fun _ _ => True) (code cfg op) [] := fun hop =>
    dates_of_enters ((enters_code op).mono hop)
  cases op with
  | new =>
    refine Machine.Follows.map (Machine.Follows.orReturn (P := fun _ _ => True)
      (dates_of_enters (enters_loadState fun _ _ _ _ => id)) (fun _ _ _ => trivial) fun l _ _ => ?_)
    split
    · refine Text.enter fun s => ⟨dateText_of_not_dates fun u a he => ?_, ?_⟩
      · cases he
        exact fun _ _ => id
      exact Machine.Follows.call (dates_verify _) fun l _ _ => dates_of_enters enters_writeBack
    · exact dates_of_enters enters_writeBack
  | createPod pod => exact Machine.Follows.map (dates_createPod [])
  | updatePod pod =>
    refine Machine.Follows.map (Text.look fun s => ⟨dateText_read, ?_⟩)
    split
    · trivial
    refine Text.enter fun s => ⟨dateText_of_not_dates fun u a he => ?_, ?_⟩
    · cases he
      exact fun _ _ => id
    split
    · exact dates_createPod _
    · trivial
  | claimVerification =>
    refine Machine.Follows.map (Machine.Follows.call (dates_verify _) fun l b _ => ?_)
    split
    · trivial
    · exact Text.last_look fun s => ⟨dateText_read, trivial⟩
  | publishExpiredLeases => exact Machine.Follows.map (dates_publishExpiredLeases [])
  | deletePod pod | recheckOwners now base | orphanScan | notifyPods =>
    refine hother fun a ha id d hd => ?_
    cases a with
    | settle before live | refreshDeadline key id d => exact ha
    | _ => exact hd

/-! ## What has been told -/

/-- Sandboxd, or the file the first process found, has given the lease of a sandbox the end `d`. -/
inductive Told (file : File) (tr : List Ev) (id : String) : Time → Prop where
  | claimed {t : Tid} {spec : ClaimSpec} {res : ClaimResult} :
    .asked t (.claim spec) (.ok res) ∈ tr → res.id = id → Told file tr id res.deadline
  | listed {t : Tid} {listed : List SandboxSummary} {row : SandboxSummary} :
    .asked t .sandboxes (.ok listed) ∈ tr → row ∈ listed → row.id = id →
    Told file tr id row.deadline
  | found {k : Key} {c : Claim} :
    file.content.claims.lookup k = some c → c.id = id → Told file tr id c.deadline

/-- **Where a row has its sandbox from**: the reply to a `Claim` of its key, or its row in the
file. -/
inductive Given (file : File) (tr : List Ev) (k : Key) : Credential → String → Prop where
  | claimed {spec : ClaimSpec} {res : ClaimResult} :
      .asked (.lifecycle k) (.claim spec) (.ok res) ∈ tr → spec.claimRef = k →
      Given file tr k ⟨res.id, res.token⟩ res.ownerAddr
  | found {c : Claim} : file.content.claims.lookup k = some c → Given file tr k c.cred c.address

/-- **A row that says what was told**, its lease end perhaps in whole seconds. -/
structure AsTold (file : File) (tr : List Ev) (k : Key) (c : Claim) : Prop where
  given : Given file tr k c.cred c.address
  deadline : ∃ d, Told file tr c.id d ∧ (c.deadline = d ∨ c.deadline = wholeSeconds d)

theorem Told.mono {tr' : List Ev} (h : Told file tr id d) (ht : tr ⊆ tr') : Told file tr' id d := by
  cases h with
  | claimed he hid => exact .claimed (ht he) hid
  | listed he hrow hid => exact .listed (ht he) hrow hid
  | found hc hid => exact .found hc hid

theorem Given.mono {tr' : List Ev} {cr : Credential} {addr : String} (h : Given file tr k cr addr)
    (ht : tr ⊆ tr') : Given file tr' k cr addr := by
  cases h with
  | claimed he hk => exact .claimed (ht he) hk
  | found hc => exact .found hc

namespace AsTold

theorem mono {tr' : List Ev} (h : AsTold file tr k c) (ht : tr ⊆ tr') : AsTold file tr' k c := by
  obtain ⟨d, hd, he⟩ := h.deadline
  exact ⟨h.given.mono ht, d, hd.mono ht, he⟩

theorem found (h : file.content.claims.lookup k = some c) : AsTold file tr k c :=
  ⟨.found h, c.deadline, .found h rfl, .inl rfl⟩

/-- The times of a row do not tell where it is from. -/
theorem same (h : AsTold file tr k c) (hs : c.cred = c'.cred) (ha : c.address = c'.address)
    (hd : ∃ d, Told file tr c'.id d ∧ (c'.deadline = d ∨ c'.deadline = wholeSeconds d)) :
    AsTold file tr k c' :=
  ⟨hs ▸ ha ▸ h.given, hd⟩

theorem marshal (h : AsTold file tr k c) : AsTold file tr k c.marshal := by
  obtain ⟨d, hd, he⟩ := h.deadline
  refine ⟨h.given, d, hd, .inr ?_⟩
  obtain he | he := he
  · simp only [Claim.marshal, he]
  · simp only [Claim.marshal, he, wholeSeconds_idem]

end AsTold

/-! ## Runs -/

/-- What a create has in hand is the reply to its `Claim`. -/
theorem Runs.inHand_claimed (h : Runs cfg file tr x) {res : ClaimResult}
    (hr : (x.shared.ledger.progress k).inHand = some res) :
    ∃ spec, .asked (.lifecycle k) (.claim spec) (.ok res) ∈ tr ∧ spec.claimRef = k := by
  induction h with
  | nil => cases hr
  | @snoc tr x ev x' h hs ih =>
    have hrun : Runs cfg file tr x := h
    obtain ⟨hg, ha⟩ := hrun.next hs
    have hback : (x.shared.ledger.progress k).inHand = some res →
        ∃ spec, .asked (.lifecycle k) (.claim spec) (.ok res) ∈ tr ++ [ev] ∧ spec.claimRef = k := by
      intro hr
      obtain ⟨spec, hmem, hk⟩ := ih hr
      exact ⟨spec, List.mem_append_left _ hmem, hk⟩
    obtain hp | ⟨op, -, -, hp⟩ | ⟨t, a, -, hp⟩ | ⟨t, spec, res', rfl, rfl, hp⟩ | ⟨-, hp⟩ :=
      (effect ha).progress k <;> rw [hp] at hr
    · exact hback hr
    · cases hr
    · obtain hkeep | ⟨hnone, -⟩ := Ledger.inHand_progressAfter (a := a) (s := x.shared)
        (l := x.shared.ledger) (k := k)
      · exact hback (hkeep ▸ hr)
      · rw [hnone] at hr
        cases hr
    · cases hr
      obtain ⟨-, rfl, -⟩ := hg
      exact ⟨spec, by simp, rfl⟩
    · cases hr

theorem Runs.mem_of_journal (h : Runs cfg file tr x) (hj : (ev, s) ∈ journal cfg file t tr) :
    ev ∈ tr := by
  obtain ⟨l₁, l₂, hj⟩ := List.append_of_mem hj
  obtain ⟨tr₁, tr₂, -, -, rfl, -⟩ := h.entry hj
  simp

/-- The lease end a section gives was told. -/
theorem Runs.dates_told (h : Runs cfg file tr x) (hs : Step (machine cfg) x (.locked t a) x')
    (hd : a.Dates id d) : Told file tr id d := by
  obtain ⟨op, -, htext⟩ := h.locked (follows_dates cfg t) hs
  obtain ⟨listed, s, hj, row, hrow, rfl, rfl⟩ := htext a id d rfl hd
  exact .listed (h.mem_of_journal hj) hrow rfl

/-- The rows of the version a section makes. -/
theorem Runs.as_told_locked (h : Runs cfg file tr x) (ih : RowsFrom 0 (AsTold file tr) x.shared)
    (hs : Step (machine cfg) x (.locked t a) x')
    (hc : (a.run x.shared.mem).claims.lookup k = some c) :
    AsTold file tr k c := by
  obtain ⟨⟨-, hg⟩, -⟩ := h.next hs
  obtain ⟨c₀, h₀, hsame, hdate⟩ | hcr := Section.row_dated hc
  · have hold := ih.row h.inv h₀
    refine hold.same hsame.cred.symm hsame.address.symm ?_
    obtain hdate | hdate := hdate
    · obtain ⟨d, hd, he⟩ := hold.deadline
      have hid : c.id = c₀.id := congrArg Credential.id hsame.cred
      exact ⟨d, hid ▸ hd, by rwa [hdate]⟩
    · exact ⟨_, h.dates_told hs hdate, .inl rfl⟩
  · cases a with
    | load st now =>
      obtain ⟨c₀, at₀, h₀, rfl⟩ := Memory.row_load hcr
      have hfile : x.shared.content.claims.lookup k = some c₀ := by
        rw [State.content, hg.2.2.1]
        exact h₀
      exact (ih.file hfile).same rfl rfl (ih.file hfile).deadline
    | insertClaim key pod c₀ =>
      obtain ⟨rfl, rfl⟩ := hcr
      obtain ⟨-, -, -, -, res, now, hhand, rfl, -⟩ := hg
      obtain ⟨spec, hmem, hk⟩ := h.inHand_claimed hhand
      exact ⟨.claimed hmem hk, res.deadline, .claimed hmem rfl, .inl rfl⟩
    | _ => exact hcr.elim

theorem as_told_initial (file : File) : RowsFrom 0 (AsTold file []) (State.initial file) := by
  refine ⟨fun {i m k c} _ hm hc => ?_, fun {k c} hc => .found hc, .inl rfl⟩
  have hm : m ∈ ([{}] : List Memory) := List.mem_of_getElem? hm
  obtain rfl := List.mem_singleton.mp hm
  simp at hc

/-- **Every version of every row says what was told.** -/
theorem Runs.as_told (h : Runs cfg file tr x) : RowsFrom 0 (AsTold file tr) x.shared := by
  induction h with
  | nil => exact as_told_initial file
  | @snoc tr x ev x' h hs ih =>
    have hrun : Runs cfg file tr x := h
    obtain ⟨hg, ha⟩ := hrun.next hs
    have hsub : tr ⊆ tr ++ [ev] := List.subset_append_left _ _
    refine ⟨fun {i m k c} _ hm hc => ?_, fun {k c} hc => ?_, .inl rfl⟩
    · obtain hm | ⟨t, a, rfl, rfl⟩ | ⟨-, rfl⟩ := (effect ha).memAt_back hm
      · exact (ih.seen (Nat.zero_le i) hm hc).mono hsub
      · exact (hrun.as_told_locked ih hs hc).mono hsub
      · simp at hc
    · obtain ⟨hf, -⟩ | ⟨t, u, d, rfl, hd, hf, -⟩ := (effect ha).file
      · rw [State.content, hf] at hc
        exact (ih.file hc).mono hsub
      · obtain ⟨-, -, d', hren⟩ := hg.2
        obtain rfl : d' = d := Option.some.inj (hren.tmp.symm.trans hd)
        rw [State.content, hf] at hc
        obtain ⟨m, c₀, hm, h₀, rfl⟩ := hren.row hc
        exact (ih.seen (Nat.zero_le _) hm h₀).marshal.mono hsub

/-- What a queued claim says was given for some key, or was queued in the first file. -/
def QueuedAsTold (file : File) (tr : List Ev) (c : Claim) : Prop :=
  (∃ k, Given file tr k c.cred c.address) ∨
    ∃ c₀ ∈ file.content.releasing, c₀.cred = c.cred ∧ c₀.address = c.address

theorem QueuedAsTold.mono {tr' : List Ev} (h : QueuedAsTold file tr c) (ht : tr ⊆ tr') :
    QueuedAsTold file tr' c :=
  h.imp (fun ⟨k, hk⟩ => ⟨k, hk.mono ht⟩) id

theorem queue_as_told_initial (file : File) :
    Queued (QueuedAsTold file []) (State.initial file) := by
  refine ⟨fun {m c} ⟨i, hm⟩ hc => ?_, fun {c} hc => .inr ⟨c, hc, rfl, rfl⟩⟩
  have hm : m ∈ ([{}] : List Memory) := List.mem_of_getElem? hm
  obtain rfl := List.mem_singleton.mp hm
  cases hc

theorem Runs.queue_as_told (h : Runs cfg file tr x) : Queued (QueuedAsTold file tr) x.shared := by
  induction h with
  | nil => exact queue_as_told_initial file
  | @snoc tr x ev x' h hs ih =>
    have hrun : Runs cfg file tr x := h
    obtain ⟨hg, ha⟩ := hrun.next hs
    have hrow : ∀ {k c}, x.shared.row k = some c → Given file tr k c.cred c.address := fun hc =>
      (hrun.as_told.row hrun.inv hc).given
    refine (ih.step id hg ha (fun _ hc _ _ => .inl ⟨_, hrow hc⟩) ?_).mono fun h =>
      h.mono (List.subset_append_left _ _)
    rintro t k c cur rfl hcur hid
    obtain ⟨-, -, -, -, hsame⟩ := hg
    have hc := (hsame cur hcur hid).1
    exact .inl ⟨k, hc.cred ▸ hc.address ▸ hrow hcur⟩

/-- **No row says what nobody told.**  In every state of every run, whatever the restarts: the id,
the token and the address of a row are those of the reply to a `Claim` made for its key, or of the
row the first process found there; its lease end is one that sandboxd gave for that sandbox, in a
`Claim` reply or a listing, or the one found, possibly in whole seconds.  So it is in the file.
What is queued for release has id, token and address as they were given for some key, or as the
first process found them queued. -/
theorem rows_as_told (h : Runs cfg file tr x) :
    (∀ k c, x.shared.row k = some c → AsTold file tr k c) ∧
    (∀ k c, x.shared.content.claims.lookup k = some c → AsTold file tr k c) ∧
    ∀ c, c ∈ x.shared.mem.releasing ∨ c ∈ x.shared.content.releasing → QueuedAsTold file tr c := by
  refine ⟨fun k c hc => h.as_told.row h.inv hc, fun k c hc => h.as_told.file hc, fun c hc => ?_⟩
  obtain hc | hc := hc
  · exact h.queue_as_told.seen x.shared.seen_mem hc
  · exact h.queue_as_told.file hc

/-- A row that has been through a crash, its token from before. -/
theorem rows_as_told_after_restart : ∃ tr x c, Runs fullConfig .absent tr x ∧
    x.shared.row "ns/p" = some c ∧ c.id ∈ x.shared.ledger.loaded ∧ AsTold .absent tr "ns/p" c := by
  obtain ⟨tr, x, hrun, hrow⟩ := exists_run fullConfig .absent
    (call .boot .new 10 {} ++ call (.lifecycle "ns/p") (.createPod (samplePod "p" "u1" [])) 17
        { claimed := .ok (sampleResult "s1") } ++
      .crash :: call .boot .new 14
        { file := .decoded (sampleFile "ns/p" (sampleClaim "s1" (samplePod "p" "u1" [])))
          listed := .error "down" })
    (fun _ s => (s.row "ns/p").any (fun c => decide (c.id ∈ s.ledger.loaded)) = true)
      (by decide +kernel)
  obtain ⟨c, hc, hl⟩ := (Option.any_eq_true _ _).mp hrow
  exact ⟨tr, x, c, hrun, hc, of_decide_eq_true hl, (rows_as_told hrun).1 "ns/p" c hc⟩

/-! ## The addresses a node publishes -/

section Inventory

variable {order : List Key} {addr : String}

/-- Where no id has two rows, `ClaimAddresses` has the address of each row that has one. -/
theorem lookup_claimAddresses_iff {claims : Table Key Claim} (ho : Table.Ranges claims.keys order)
    (hone : ∀ {k k' c c'}, claims.lookup k = some c → claims.lookup k' = some c' → c.id = c'.id →
      k = k') :
    (claimAddresses claims order).lookup id = some addr ↔
      ∃ k c, claims.lookup k = some c ∧ c.id = id ∧ c.address = addr ∧ addr ≠ "" := by
  constructor
  · intro h
    obtain ⟨k, c, hc, hid, rfl⟩ := hasAddress_of_lookup h
    obtain ⟨hc, hne⟩ := addressed_eq_some.mp hc
    exact ⟨k, c, hc, hid, rfl, hne⟩
  · rintro ⟨k, c, hc, rfl, rfl, hne⟩
    have hhas : HasAddress claims c.id c.address :=
      ⟨k, c, addressed_eq_some.mpr ⟨hc, hne⟩, rfl, rfl⟩
    obtain ⟨addr, ha⟩ := Option.isSome_iff_exists.mp (hhas.isSome_lookup ho)
    obtain ⟨k', c', hc', hid, rfl⟩ := hasAddress_of_lookup ha
    obtain ⟨hc', -⟩ := addressed_eq_some.mp hc'
    obtain rfl := hone hc hc' hid.symm
    rw [ha, Option.some.inj (hc'.symm.trans hc)]

/-- **An inventory entry that says what was told** of a listed sandbox: all but the address from the
listing, and an address exactly if a row of the sandbox has one, which is then the address given
with it. -/
structure EntryAsTold (file : File) (tr : List Ev) (s : State) (entry : EntryMapping)
    (row : LiveRow) (e : InventoryEntry) : Prop where
  summary : e = { entry.entryFromSummary row with address := e.address }
  address : e.address = "" ∧ (∀ k c, s.row k = some c → c.id = row.id → c.address = "") ∨
    e.address ≠ "" ∧ ∃ k c, s.row k = some c ∧ c.id = row.id ∧ c.address = e.address ∧
      Given file tr k c.cred e.address

/-- **The addresses a node publishes are those sandboxd gave**, or those of the first table.  From a
file that names no id twice, at any moment and in whatever order the loop ranges: `LiveSandboxes`
has one entry for each listed sandbox, in the order of their names, and it says what was told. -/
theorem inventory_addresses_as_told (h : Runs cfg file tr x) (hf : file.content.Distinct)
    (ho : Table.Ranges x.shared.mem.claims.keys order) (sort : ComparisonSort String)
    (entry : EntryMapping) (listed : List LiveRow) :
    ∃ rows, rows.Perm listed ∧ (rows.map LiveRow.name).Pairwise (· ≤ ·) ∧
      List.Forall₂ (EntryAsTold file tr x.shared entry) rows
        (liveEntries sort entry (claimAddresses x.shared.mem.claims order) listed) := by
  refine ⟨sort.sort LiveRow.name listed, sort.perm _ _, List.pairwise_map.mpr (sort.sorted _ _), ?_⟩
  rw [liveEntries_eq_map, List.forall₂_map_right_iff]
  refine List.forall₂_same.mpr fun row _ => ⟨rfl, ?_⟩
  have hiff : ∀ addr, (claimAddresses x.shared.mem.claims order).lookup row.id = some addr ↔
      ∃ k c, x.shared.row k = some c ∧ c.id = row.id ∧ c.address = addr ∧ addr ≠ "" := fun _ =>
    lookup_claimAddresses_iff ho ((h.distinct hf).seen x.shared.seen_mem).rows
  cases ha : (claimAddresses x.shared.mem.claims order).lookup row.id with
  | none =>
    refine .inl ⟨by simp [liveEntry, ha], fun k c hc hid => ?_⟩
    by_contra hne
    rw [(hiff c.address).mpr ⟨k, c, hc, hid, rfl, hne⟩] at ha
    cases ha
  | some addr =>
    obtain ⟨k, c, hc, hid, rfl, hne⟩ := (hiff addr).mp ha
    have he : (liveEntry entry (claimAddresses x.shared.mem.claims order) row).address =
        c.address := by
      simp [liveEntry, ha]
    rw [he]
    exact .inr ⟨hne, k, c, hc, hid, rfl, (h.as_told.row h.inv hc).given⟩

/-- One sandbox, claimed by the provider and listed by its node. -/
theorem inventory_addresses_as_told_of_create : ∃ tr x, Runs fullConfig .absent tr x ∧
    (x.shared.row "ns/p").isSome ∧ Table.Ranges x.shared.mem.claims.keys ["ns/p"] ∧
    ∃ rows, rows.Perm [sampleRow "s1" "ns/p"] ∧ (rows.map LiveRow.name).Pairwise (· ≤ ·) ∧
      List.Forall₂ (EntryAsTold .absent tr x.shared .documented) rows
        (liveEntries .insertion .documented (claimAddresses x.shared.mem.claims ["ns/p"])
          [sampleRow "s1" "ns/p"]) := by
  obtain ⟨tr, x, hrun, hrow, ho⟩ := exists_run fullConfig .absent
    (call .boot .new 10 {} ++ call (.lifecycle "ns/p") (.createPod (samplePod "p" "u1" [])) 17
        { claimed := .ok (sampleResult "s1") })
    (fun _ s => (s.row "ns/p").isSome = true ∧ (["ns/p"] : List Key).Nodup ∧
      (["ns/p"] : List Key).toFinset = s.mem.claims.keys) (by decide +kernel)
  exact ⟨tr, x, hrun, hrow, ho,
    inventory_addresses_as_told hrun StateFile.distinct_empty ho .insertion
    .documented [sampleRow "s1" "ns/p"]⟩

end Inventory

end VkSandbox
