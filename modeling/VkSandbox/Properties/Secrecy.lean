import VkSandbox.Inventory.LiveSource
import VkSandbox.Properties.Scenario
import VkSandbox.Provider.Retoken

/-!
# Properties/Secrecy — what nobody can see

Two things are in the provider that the rest of it must not depend on: the tokens, and the orphan
scan.

* `tokens_secret`: replace every token by another and the provider does exactly the same, but for
  the Release requests, the state file and the rows that carry them.  No token shows in a Pod, a
  status, an error, an owner read, a claim request or the inventory, not even in *when* one of these
  happens.
* `orphan_scan_audit_only`: leave every step of the orphan scan out of a run, and what is left is a
  run, with the same tables and the same state file.
-/

namespace VkSandbox

open Interleave

variable {cfg : Config} {f : String → String} {hidden : Tid → Bool}

/-! ## States -/

/-- **`s'` is `s` with other tokens**, as far as an event can tell; the hidden threads may be in
other calls. -/
structure State.Like (f : String → String) (hidden : Tid → Bool) (s s' : State) : Prop where
  mem : s.mem.Retokened f s'.mem
  file : s'.disk.file = s.disk.file.retoken f
  tmp : s'.disk.tmp.map (·.st) = (s.disk.tmp.map (·.st)).map (StateFile.retoken f)
  saveMu : s'.saveMu = s.saveMu
  phase : s'.phase = s.phase
  issued : s'.ledger.issuedIds = s.ledger.issuedIds
  calls : ∀ {t}, hidden t = false → (s'.ledger.calls t).isNone = (s.ledger.calls t).isNone

namespace State.Like

variable {s s' s₁ : State} {t : Tid}

theorem initial (f : String → String) (file : File) :
    (State.initial file).Like f hidden (State.initial (file.retoken f)) where
  mem := ⟨rfl, rfl, rfl, rfl, rfl, rfl, rfl⟩
  file := rfl
  tmp := rfl
  saveMu := rfl
  phase := rfl
  calls := fun _ => rfl
  issued := by
    cases file with
    | table st =>
      ext id
      simp only [Ledger.issuedIds, State.initial, Finset.mem_image, File.retoken, File.content,
        StateFile.mem_creds, StateFile.Holds, StateFile.retoken, Table.lookup_mapRows]
      constructor
      · rintro ⟨_, ⟨k, c, hc, rfl⟩ | ⟨c, hc, rfl⟩, rfl⟩
        · obtain ⟨c₀, hc₀, rfl⟩ := Option.map_eq_some_iff.mp hc
          exact ⟨c₀.cred, .inl ⟨k, c₀, hc₀, rfl⟩, rfl⟩
        · obtain ⟨c₀, hc₀, rfl⟩ := List.mem_map.mp hc
          exact ⟨c₀.cred, .inr ⟨c₀, hc₀, rfl⟩, rfl⟩
      · rintro ⟨_, ⟨k, c, hc, rfl⟩ | ⟨c, hc, rfl⟩, rfl⟩
        · exact ⟨(c.retoken f).cred, .inl ⟨k, _, by rw [hc]; rfl, rfl⟩, rfl⟩
        · exact ⟨(c.retoken f).cred, .inr ⟨_, List.mem_map_of_mem hc, rfl⟩, rfl⟩
    | _ => rfl

/-- The ledgers may differ in everything else. -/
theorem record (h : s.Like f hidden s') {g g' : Ledger → Ledger}
    (hi : (g' s'.ledger).issuedIds = (g s.ledger).issuedIds)
    (hc : ∀ {t}, hidden t = false →
      ((g' s'.ledger).calls t).isNone = ((g s.ledger).calls t).isNone) :
    (s.record g).Like f hidden (s'.record g') := { h with issued := hi, calls := hc }

theorem begin (h : s.Like f hidden s') (t : Tid) (op : Op) {u : Tid} (hu : hidden u = false) :
    ((s'.ledger.begin t op s'.instant).calls u).isNone
      = ((s.ledger.begin t op s.instant).calls u).isNone := by
  by_cases hut : u = t
  · subst hut
    simp [Ledger.begin]
  · simp only [Ledger.begin, Function.update_of_ne hut]
    exact h.calls hu

theorem started (h : s.Like f hidden s') {op : Op} (ht : hidden t = false)
    (ha : apply (.started t op) s = some s₁) :
    ∃ s₁', apply (.started t op) s' = some s₁' ∧ s₁.Like f hidden s₁' := by
  obtain ⟨rfl, rfl, hp, hc, rfl⟩ | ⟨hb, hp, hm, hc, rfl⟩ := apply_started ha
  · have hcond : s'.phase = .down ∧ (s'.ledger.calls .boot).isNone = true :=
      ⟨h.phase.trans hp, (h.calls ht).trans (by rw [hc]; rfl)⟩
    refine ⟨_, if_pos hcond, ?_⟩
    exact { h with phase := rfl, issued := h.issued, calls := h.begin .boot .new }
  · have hcond : s'.phase = .up ∧ mayCall t op = true ∧ (s'.ledger.calls t).isNone = true :=
      ⟨h.phase.trans hp, hm, (h.calls ht).trans (by rw [hc]; rfl)⟩
    refine ⟨s'.record (·.begin t op s'.instant), ?_, h.record h.issued (h.begin t op)⟩
    simp only [apply]
    split
    · exact absurd rfl hb
    · exact if_pos hcond

theorem answer {e : Request} {r : Reply e} (h : s.Like f hidden s')
    (ha : answer t e r s = some s₁) :
    ∃ s₁', answer t (Request.retoken f e) (Reply.retoken f e r) s' = some s₁' ∧
      s₁.Like f hidden s₁' := by
  cases e with
  | now =>
    obtain ⟨rfl, hle⟩ := answer_now ha
    exact ⟨s', if_pos hle, h⟩
  | rangeOver keys =>
    simp only [VkSandbox.answer] at ha
    split at ha
    · next hr => cases ha; exact ⟨s', if_pos hr, h⟩
    · cases ha
  | sendClaim spec => cases ha; exact ⟨s', rfl, h⟩
  | claim spec =>
    cases r with
    | error err => cases ha; exact ⟨s', rfl, h⟩
    | ok res =>
      simp only [VkSandbox.answer] at ha
      split at ha
      · cases ha
      · next hnew =>
        cases ha
        refine ⟨_, if_neg (h.issued ▸ hnew), h.record ?_ h.calls⟩
        have hids := h.issued
        simp only [Ledger.issuedIds] at hids
        simp only [Ledger.issuedIds, Finset.image_insert, hids]
        rfl
  | sendRelease id token => cases ha; exact ⟨_, rfl, h.record h.issued h.calls⟩
  | release id token =>
    cases r with
    | error err => cases ha; exact ⟨s', rfl, h⟩
    | ok u => cases ha; exact ⟨_, rfl, h.record h.issued h.calls⟩
  | sendList => cases ha; exact ⟨_, rfl, h.record h.issued h.calls⟩
  | sandboxes =>
    cases r with
    | error err => cases ha; exact ⟨_, rfl, h.record h.issued h.calls⟩
    | ok listed => cases ha; exact ⟨_, rfl, h.record h.issued h.calls⟩
  | getOwner key gvr ns name => cases ha; exact ⟨_, rfl, h.record h.issued h.calls⟩
  | notify pod => cases ha; exact ⟨_, rfl, h.record h.issued h.calls⟩
  | lockSave =>
    obtain ⟨hfree, rfl⟩ := answer_lockSave ha
    exact ⟨_, if_pos (h.saveMu.trans hfree),
      { h with saveMu := rfl, issued := h.issued, calls := h.calls }⟩
  | unlockSave =>
    simp only [VkSandbox.answer] at ha
    split at ha
    · next hmine => cases ha; exact ⟨_, if_pos (h.saveMu.trans hmine), { h with saveMu := rfl }⟩
    · cases ha
  | mkdirAll =>
    cases r with
    | error err => cases ha; exact ⟨_, rfl, h.record h.issued h.calls⟩
    | ok u => cases ha; exact ⟨s', rfl, h⟩
  | writeFile st =>
    cases r with
    | error err =>
      cases ha; exact ⟨_, rfl, { h with tmp := rfl, issued := h.issued, calls := h.calls }⟩
    | ok u =>
      cases ha
      exact ⟨_, rfl, { h with tmp := congrArg some (StateFile.marshal_retoken f st) }⟩
  | rename =>
    cases r with
    | error err => cases ha; exact ⟨_, rfl, h.record h.issued h.calls⟩
    | ok u =>
      obtain ⟨d, hd, rfl⟩ := answer_rename ha
      have htmp := h.tmp
      rw [hd] at htmp
      obtain ⟨d', hd', hst⟩ := Option.map_eq_some_iff.mp htmp
      refine ⟨_, by simp only [Request.retoken, Reply.retoken, VkSandbox.answer, hd']; rfl, ?_⟩
      exact { h with
        file := congrArg File.table hst, tmp := rfl, issued := h.issued, calls := h.calls }
  | readFile =>
    cases r with
    | failed err => cases ha; exact ⟨s', rfl, h⟩
    | absent =>
      simp only [VkSandbox.answer] at ha
      split at ha
      · next hf => cases ha; exact ⟨s', if_pos (by rw [h.file, hf]; rfl), h⟩
      · cases ha
    | undecodable err =>
      simp only [VkSandbox.answer] at ha
      split at ha
      · next hf => cases ha; exact ⟨s', if_pos (by rw [h.file, hf]; rfl), h⟩
      · cases ha
    | decoded st =>
      simp only [VkSandbox.answer] at ha
      split at ha
      · next hf =>
        cases ha
        exact ⟨_, if_pos (by rw [h.file, hf]; rfl), h.record h.issued h.calls⟩
      · cases ha

theorem finished (h : s.Like f hidden s') {op : Op} {r : Outcome}
    (ha : apply (.finished t op r) s = some s₁) :
    ∃ s₁', apply (.finished t op r) s' = some s₁' ∧ s₁.Like f hidden s₁' := by
  have hfin : (s.record (·.finish t op r)).Like f hidden (s'.record (·.finish t op r)) := by
    refine h.record h.issued fun {u} hu => ?_
    by_cases hut : u = t
    · subst hut
      simp [Ledger.finish]
    · simp only [Ledger.finish, Function.update_of_ne hut]
      exact h.calls hu
  cases t with
  | boot =>
    cases r with
    | ok => cases ha; exact ⟨_, rfl, { hfin with phase := rfl }⟩
    | _ =>
      cases ha
      exact ⟨_, rfl, { hfin with mem := ⟨rfl, rfl, rfl, rfl, rfl, rfl, rfl⟩, phase := rfl }⟩
  | _ => cases ha; exact ⟨_, rfl, hfin⟩

/-- **Every event happens with other tokens too.** -/
theorem apply {ev : Ev} (h : s.Like f hidden s') (hv : ev.tid.all (hidden · = false))
    (ha : apply ev s = some s₁) :
    ∃ s₁', VkSandbox.apply ((tokens f).event id id ev) s' = some s₁' ∧ s₁.Like f hidden s₁' := by
  cases ev with
  | started t op => exact h.started (of_decide_eq_true hv) ha
  | read t => cases ha; exact ⟨_, rfl, h.record h.issued h.calls⟩
  | locked t a =>
    cases ha; exact ⟨_, rfl, { h with mem := h.mem.run a, issued := h.issued, calls := h.calls }⟩
  | asked t e r => exact h.answer ha
  | finished t op r => exact h.finished ha
  | crashed =>
    simp only [VkSandbox.apply] at ha
    split at ha
    · cases ha
    · next hup =>
      cases ha
      refine ⟨_, if_neg (h.phase ▸ hup), ?_⟩
      exact { h with
        mem := ⟨rfl, rfl, rfl, rfl, rfl, rfl, rfl⟩, saveMu := rfl, phase := rfl, issued := h.issued,
        calls := fun _ => rfl }

end State.Like

/-! ## Tokens -/

/-- The provider with other tokens. -/
def withTokens (cfg : Config) (f : String → String) :
    Simulation (machine cfg) (machine cfg) (tokens f) where
  op := id
  out := id
  hidden := fun _ => false
  State := State.Like f fun _ => false
  guard := fun _ _ => True
  mem := (·.mem)
  code := fun _ _ => alike_code _
  shown := fun h _ hv ha => h.apply hv ha
  unseen := fun _ _ _ hh _ => by cases hh

/-- The event with the tokens it carries replaced. -/
def retokenEvent (f : String → String) : Ev → Ev := (tokens f).event id id

/-- The events in which a token may be: a Claim's answer, a Release, the state file, and the
sections that write a row. -/
def CarriesToken : Ev → Bool
  | .asked _ (.claim _) _ | .asked _ (.sendRelease _ _) _ | .asked _ (.release _ _) _
  | .asked _ (.writeFile _) _ | .asked _ .readFile _
  | .locked _ (.load _ _) | .locked _ (.insertClaim _ _ _)
  | .locked _ (.withdrawForRelease _ _) => true
  | _ => false

theorem retokenEvent_of_not_carries {ev : Ev} (h : CarriesToken ev = false) :
    retokenEvent f ev = ev := by
  cases ev with
  | locked t a =>
    cases a with
    | load | insertClaim | withdrawForRelease => cases h
    | _ => rfl
  | asked t e r =>
    cases e with
    | claim | sendRelease | release | writeFile | readFile => cases h
    | _ => rfl
  | _ => rfl

theorem carriesToken_retokenEvent (ev : Ev) :
    CarriesToken (retokenEvent f ev) = CarriesToken ev := by
  cases ev with
  | locked t a => cases a <;> rfl
  | asked t e r => cases e <;> rfl
  | _ => rfl

theorem filter_retokenEvent (tr : List Ev) :
    (tr.map (retokenEvent f)).filter (!CarriesToken ·) = tr.filter (!CarriesToken ·) := by
  induction tr with
  | nil => rfl
  | cons ev tr ih =>
    rw [List.map_cons, List.filter_cons, List.filter_cons, carriesToken_retokenEvent, ih]
    cases hc : CarriesToken ev with
    | false => rw [retokenEvent_of_not_carries hc]
    | true => rfl

section Runs

variable {file : File} {tr : List Ev}
  {x : Interleave.Config State Memory Section Request Reply Tid Op Outcome}

theorem Runs.retoken (h : Runs cfg file tr x) (f : String → String) :
    ∃ y, Runs cfg (file.retoken f) (tr.map (retokenEvent f)) y ∧
      (withTokens cfg f).Related x y := by
  obtain ⟨y, hrun, hrel⟩ := Simulation.run (S := withTokens cfg f) h
    (d := ⟨State.initial (file.retoken f), fun _ => none⟩)
    ⟨State.Like.initial f file, fun _ => rfl, fun _ hp => by cases hp⟩ fun _ _ => trivial
  refine ⟨y, ?_, hrel⟩
  have hall : (withTokens cfg f).event = fun ev => some (retokenEvent f ev) := by
    funext ev
    exact if_pos (by cases ev.tid <;> rfl)
  rw [hall, List.filterMap_eq_map'] at hrun
  exact hrun

/-- **No token is seen.**  Whatever the tokens are replaced by, the same run happens with the
others: the events that carry no token are the same ones in the same order, and every Pod, every
status and every address is what it was. -/
theorem tokens_secret (h : Runs cfg file tr x) (f : String → String) :
    ∃ y, Runs cfg (file.retoken f) (tr.map (retokenEvent f)) y ∧
      (tr.map (retokenEvent f)).filter (!CarriesToken ·) = tr.filter (!CarriesToken ·) ∧
      (∀ ns name, getPod y.shared.mem ns name = getPod x.shared.mem ns name) ∧
      (∀ now ns name, getPodStatus cfg.platform y.shared.mem now ns name =
        getPodStatus cfg.platform x.shared.mem now ns name) ∧
      ∀ order, claimAddresses y.shared.mem.claims order =
        claimAddresses x.shared.mem.claims order := by
  obtain ⟨y, hrun, hrel⟩ := h.retoken f
  have hm : x.shared.mem.Retokened f y.shared.mem := hrel.shared.mem
  refine ⟨y, hrun, filter_retokenEvent tr, fun ns name => ?_, fun now ns name => ?_,
    fun order => ?_⟩
  · rw [getPod, getPod, hm.pods]
  · simp only [getPodStatus, hm.pods, hm.claimFor]
    cases x.shared.mem.pods.lookup (podKey ns name) with
    | none => rfl
    | some pod => cases x.shared.mem.claimFor (podKey ns name) <;> rfl
  · have hsame : addressed y.shared.mem.claims = fun k =>
        (addressed x.shared.mem.claims k).map (Claim.retoken f) := by
      funext k
      rw [addressed, addressed, hm.lookup, Option.filter_map]
      rfl
    rw [claimAddresses_eq_build, claimAddresses_eq_build, hsame]
    refine Table.foldl_eq_build (fun out k c hc => ?_) fun out k hk => ?_
    · dsimp only
      rw [hc]
      rfl
    · dsimp only
      rw [hk]
      rfl

/-- A create with a token, and the same create with another. -/
theorem tokens_secret_create : ∃ tr x y, Runs fullConfig .absent tr x ∧
    Runs fullConfig .absent (tr.map (retokenEvent fun _ => "other")) y ∧
    x.shared.ledger.issued = {⟨"s1", "token-s1"⟩} ∧
    getPodStatus fullConfig.platform y.shared.mem (5 * second) "ns" "p" =
      getPodStatus fullConfig.platform x.shared.mem (5 * second) "ns" "p" ∧
    (getPodStatus fullConfig.platform x.shared.mem (5 * second) "ns" "p").any
      (·.phase = .running) := by
  obtain ⟨tr, x, hrun, hissued, hstatus⟩ := exists_run fullConfig .absent
    (call .boot .new 10 {} ++ call (.lifecycle "ns/p") (.createPod (samplePod "p" "u1" [])) 17
      { claimed := .ok (sampleResult "s1") })
    (fun _ s => s.ledger.issued = {⟨"s1", "token-s1"⟩} ∧
      (getPodStatus fullConfig.platform s.mem (5 * second) "ns" "p").any
        (·.phase = .running) = true)
    (by decide +kernel)
  obtain ⟨y, hrun', -, -, hst, -⟩ := tokens_secret hrun fun _ => "other"
  exact ⟨tr, x, y, hrun, hrun', hissued, hst _ _ _, hstatus⟩

end Runs

/-! ## The orphan scan -/

/-- What the scan's goroutine does: it lists, ranges, and replaces its own table. -/
def ScanEvent : Ev → Prop
  | .locked .orphanScan a => ∃ verdicts, a = .setVerdicts verdicts
  | .asked .orphanScan e _ => e.Lists ∨ ∃ keys, e = .rangeOver keys
  | _ => True

/-- **A step of the scan leaves everything as it was.** -/
theorem State.Like.scan {s s' s₁ : State} {ev : Ev}
    (h : s.Like id (· = .orphanScan) s') (hg : ScanEvent ev) (ht : ev.tid = some .orphanScan)
    (ha : VkSandbox.apply ev s = some s₁) : s₁.Like id (· = .orphanScan) s' := by
  have hrec : ∀ {g : Ledger → Ledger}, (g s.ledger).issuedIds = s.ledger.issuedIds →
      (∀ {t}, t ≠ .orphanScan → (g s.ledger).calls t = s.ledger.calls t) →
      (s.record g).Like id (· = .orphanScan) s' := fun hi hc =>
    { h with
      issued := h.issued.trans hi.symm
      calls := fun {t} ht => by
        rw [show (s.record _).ledger.calls t = s.ledger.calls t from hc (of_decide_eq_false ht)]
        exact h.calls ht }
  cases ev with
  | started t op =>
    cases ht
    obtain ⟨hb, -⟩ | ⟨-, -, -, -, rfl⟩ := apply_started ha
    · cases hb
    · exact hrec rfl fun hne => Function.update_of_ne hne _ _
  | read t => cases ha; exact hrec rfl fun _ => rfl
  | locked t a =>
    cases ht
    obtain ⟨verdicts, rfl⟩ := hg
    cases ha
    exact { h with mem := { h.mem with }, issued := h.issued, calls := h.calls }
  | asked t e r =>
    cases ht
    cases e with
    | sendList => cases ha; exact hrec rfl fun _ => rfl
    | sandboxes =>
      cases r with
      | error err => cases ha; exact hrec rfl fun _ => rfl
      | ok listed => cases ha; exact hrec rfl fun _ => rfl
    | rangeOver keys =>
      simp only [VkSandbox.apply, VkSandbox.answer] at ha
      split at ha
      · cases ha; exact h
      · cases ha
    | _ =>
      obtain hl | ⟨keys, hk⟩ := hg
      · cases hl
      · cases hk
  | finished t op r =>
    cases ht
    cases ha
    exact hrec rfl fun hne => Function.update_of_ne hne _ _
  | crashed => cases ht

/-- The provider without the orphan scan. -/
def withoutScan (cfg : Config) : Simulation (machine cfg) (machine cfg) (tokens id) where
  op := id
  out := id
  hidden := (· = .orphanScan)
  State := State.Like id (· = .orphanScan)
  guard := fun _ ev => ScanEvent ev
  mem := (·.mem)
  code := fun _ _ => alike_code _
  shown := fun h _ hv ha => h.apply hv ha
  unseen := fun h hg ht hh ha => by
    obtain rfl := of_decide_eq_true hh
    exact h.scan hg ht ha

theorem claimRetoken_id : Claim.retoken id = id := rfl

theorem StateFile.retoken_id (st : StateFile) : st.retoken id = st := by
  rw [retoken, claimRetoken_id, List.map_id, Table.mapRows_id]

theorem File.retoken_id (file : File) : file.retoken id = file := by
  cases file with
  | table st => rw [retoken, StateFile.retoken_id]
  | _ => rfl

theorem retokenEvent_id (ev : Ev) : retokenEvent id ev = ev := by
  cases ev with
  | locked t a =>
    cases a with
    | load st now =>
      change (.locked t (.load (st.retoken id) now) : Ev) = _
      rw [StateFile.retoken_id]
    | _ => rfl
  | asked t e r =>
    cases e with
    | claim spec => cases r <;> rfl
    | writeFile st =>
      change (.asked t (.writeFile (st.retoken id)) r : Ev) = _
      rw [StateFile.retoken_id]
    | readFile =>
      cases r with
      | decoded st =>
        change (.asked t .readFile (.decoded (st.retoken id)) : Ev) = _
        rw [StateFile.retoken_id]
      | _ => rfl
    | _ => rfl
  | _ => rfl

section Runs

variable {file : File} {tr : List Ev}
  {x x' : Interleave.Config State Memory Section Request Reply Tid Op Outcome}

theorem Runs.scanEvent (h : Runs cfg file tr x) {ev : Ev} (hs : Step (machine cfg) x ev x') :
    ScanEvent ev := by
  have hcall : ∀ {op}, InCall x .orphanScan op → op = .orphanScan := by
    intro op hop
    obtain ⟨hb, -⟩ | hm := h.mayCall hop
    · cases hb
    · cases op with
      | orphanScan => rfl
      | _ => cases hm
  cases ev with
  | locked t a =>
    cases t with
    | orphanScan =>
      obtain ⟨op, hop, hmay⟩ := h.mayEnter hs
      obtain rfl := hcall hop
      cases a with
      | setVerdicts verdicts => exact ⟨verdicts, rfl⟩
      | _ => cases hmay
    | _ => trivial
  | asked t e r =>
    cases t with
    | orphanScan =>
      obtain ⟨op, hop, hmay⟩ := h.mayAsk hs
      obtain rfl := hcall hop
      obtain ⟨hsaves, -⟩ | ⟨-, hl⟩ | hown := hmay
      · cases hsaves
      · exact .inl hl
      · cases e with
        | rangeOver keys => exact .inr ⟨keys, rfl⟩
        | _ => cases hown
    | _ => trivial
  | _ => trivial

/-- **The orphan scan is audit-only.**  A run without the steps of the scan is a run: of the same
calls, to the same tables but for the verdicts, with the same state file. -/
theorem orphan_scan_audit_only (h : Runs cfg file tr x) :
    ∃ y, Runs cfg file (tr.filter (·.tid ≠ some .orphanScan)) y ∧
      y.shared.mem = { x.shared.mem with orphanVerdicts := y.shared.mem.orphanVerdicts } ∧
      y.shared.disk.file = x.shared.disk.file ∧ y.shared.phase = x.shared.phase ∧
      y.shared.saveMu = x.shared.saveMu ∧
      ∀ t, t ≠ .orphanScan → (y.tasks t).map (·.1) = (x.tasks t).map (·.1) := by
  have hinit : (State.initial file).Like id (· = .orphanScan) (State.initial (file.retoken id)) :=
    .initial id file
  rw [File.retoken_id] at hinit
  obtain ⟨y, hrun, hrel⟩ := Simulation.run (S := withoutScan cfg) h
    (d := ⟨State.initial file, fun _ => none⟩) ⟨hinit, fun _ => rfl, fun _ hp => by cases hp⟩
    fun h hs => Runs.scanEvent h hs
  have hlike : x.shared.Like id (· = .orphanScan) y.shared := hrel.shared
  refine ⟨y, ?_, ?_, ?_, hlike.phase, hlike.saveMu, fun t ht => ?_⟩
  · have hall : (withoutScan cfg).event = Option.guard (·.tid ≠ some .orphanScan) := by
      funext ev
      have hev : (withoutScan cfg).event ev
          = if ev.tid.all (fun t => decide (t = .orphanScan) = false) then some (retokenEvent id ev)
            else none := rfl
      rw [hev, retokenEvent_id]
      cases ht : ev.tid with
      | none => simp [Option.guard, ht]
      | some t => simp [Option.guard, ht]
    rw [hall, List.filterMap_eq_filter] at hrun
    exact hrun
  · have hm : x.shared.mem.Retokened id y.shared.mem := hlike.mem
    have hclaims := hm.claims
    have hreleasing := hm.releasing
    rw [claimRetoken_id, Table.mapRows_id] at hclaims
    rw [claimRetoken_id, List.map_id] at hreleasing
    dsimp only
    rw [← hm.pods, ← hclaims, ← hm.notifier, ← hm.tentative, ← hm.quarantined, ← hreleasing,
      ← hm.ownerRechecks]
  · rw [hlike.file, File.retoken_id]
  · cases hx : x.tasks t with
    | none => rw [hrel.idle (.inr hx)]
    | some task =>
      obtain ⟨p', hp', -⟩ := hrel.busy (decide_eq_false ht) (o := task.1) (p := task.2) hx
      rw [hp']
      rfl

/-- A scan in the middle of a create, and the create without it. -/
theorem orphan_scan_audit_only_of_create : ∃ tr x y, Runs fullConfig .absent tr x ∧
    x.shared.mem.orphanVerdicts.lookup "s9" = some .external ∧ x.shared.ledger.issuedIds = {"s1"} ∧
    Runs fullConfig .absent (tr.filter (·.tid ≠ some .orphanScan)) y ∧
    y.shared.mem.claims = x.shared.mem.claims ∧ y.shared.disk.file = x.shared.disk.file := by
  obtain ⟨tr, x, hrun, hverdict, hissued⟩ := exists_run fullConfig .absent
    (call .boot .new 10 {} ++
      call (.lifecycle "ns/p") (.createPod (samplePod "p" "u1" [])) 5 {} ++
      call .orphanScan .orphanScan 7 { listed := .ok [sampleSummary "s9"] } ++
      steps (.lifecycle "ns/p") 12 { claimed := .ok (sampleResult "s1") })
    (fun _ s => s.mem.orphanVerdicts.lookup "s9" = some .external ∧ s.ledger.issuedIds = {"s1"})
    (by decide +kernel)
  obtain ⟨y, hrun', hmem, hfile, -⟩ := orphan_scan_audit_only hrun
  exact ⟨tr, x, y, hrun, hverdict, hissued, hrun', by rw [hmem], hfile⟩

end Runs

end VkSandbox
