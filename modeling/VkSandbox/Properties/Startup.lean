import VkSandbox.Machinery.Solo
import VkSandbox.Properties.Scenario
import VkSandbox.Provider.Journals

/-!
# Properties/Startup — what `New` makes of a state file

`New` runs before anything else does, so it is sequential code:

    load, backfill → quarantine → snapshot, listing, settle → write

`Started` says what the tables are at its end, row by row; `alone_new` derives it from the code, and
`New` on its own result is the identity on the file as soon as no time of the table lies in the
first second of year 1, which the file format cannot tell from "absent".
-/

namespace VkSandbox

open Interleave Interleave.Prog

variable {cfg : Config} {file : File} {tr l : List Ev} {s s' : State} {st : StateFile} {now : Time}
  {listing : Except String (List SandboxSummary)} {m : Memory} {α β : Type}
  {Q : List Ev → α → State → Prop}
  {x y : Interleave.Config State Memory Section Request Reply Tid Op Outcome}

/-! ## What the tables hold after a start -/

/-- A row of an older table gets the load time. -/
def Claim.dated (now : Time) (c : Claim) : Claim :=
  { c with claimedAt := if c.claimedAt = 0 then now else c.claimedAt }

theorem Claim.dated_eq (now : Time) (c : Claim) :
    (if c.claimedAt = 0 then { c with claimedAt := now } else c) = c.dated now := by
  unfold Claim.dated
  split <;> rfl

/-- The deadline a listing has for a sandbox. -/
def listedDeadline (listed : List SandboxSummary) (id : String) : Time :=
  ((liveDeadlines listed).lookup id).getD 0

/-- **What becomes of a row**: it is kept as it is when the node could not be listed, and when the
listing has it; only what it lacks is filled in. -/
def startRow (now : Time) (listing : Except String (List SandboxSummary)) (c : Claim) :
    Option Claim :=
  match listing with
  | .error _ => some (c.dated now)
  | .ok listed =>
    if c.id ∈ listedIds listed then
      some { c.dated now with
        deadline := if c.deadline = 0 then listedDeadline listed c.id else c.deadline }
    else none

/-- **The tables after `New`** has loaded `st` at `now` and the node has answered `listing`. -/
structure Started (st : StateFile) (now : Time) (listing : Except String (List SandboxSummary))
    (m : Memory) : Prop where
  rows : ∀ k, m.claims.lookup k = (st.claims.lookup k).bind (startRow now listing)
  releasing : m.releasing = st.releasing
  quarantined : m.quarantined = if listing.isOk then ∅ else st.claims.keys
  pods : m.pods = ∅
  tentative : m.tentative = ∅

/-- What the listing makes of the loaded tables. -/
def verifiedBy (listing : Except String (List SandboxSummary)) (m : Memory) : Memory :=
  match listing with
  | .error _ => m
  | .ok listed => m.settle m.unverified (liveDeadlines listed)

theorem settleRow_dated (listed : List SandboxSummary) (c : Claim) :
    Memory.settleRow (liveDeadlines listed) (c.dated now) = startRow now (.ok listed) c := by
  change ((liveDeadlines listed).lookup c.id).map _ = _
  simp only [startRow, listedDeadline]
  cases hl : (liveDeadlines listed).lookup c.id with
  | none =>
    have hnot : c.id ∉ listedIds listed := fun hm => by
      rw [← isSome_lookup_liveDeadlines, hl] at hm
      cases hm
    rw [if_neg hnot]
    rfl
  | some d =>
    have hin : c.id ∈ listedIds listed := (isSome_lookup_liveDeadlines _ _).mp (by rw [hl]; rfl)
    rw [if_pos hin]
    rw [Option.map_some, Option.getD_some]
    by_cases h0 : c.deadline = 0
    · by_cases hd : d = 0
      · simp [Claim.dated, h0, hd]
      · simp [Claim.dated, h0, hd]
    · simp [Claim.dated, h0]

/-- The tables `New` loads, quarantines and settles. -/
theorem started_verifiedBy :
    Started st now listing
      (verifiedBy listing ((Memory.load st now {}).quarantineLoadedClaims)) := by
  have hload : ∀ k, ((Memory.load st now {}).quarantineLoadedClaims).claims.lookup k
      = (st.claims.lookup k).map (Claim.dated now) := fun k => by
    simp only [Memory.quarantineLoadedClaims, Memory.load, Table.lookup_pick, Claim.dated_eq]
    cases st.claims.lookup k <;> rfl
  have hkeys : ((Memory.load st now {}).quarantineLoadedClaims).quarantined = st.claims.keys := by
    ext k
    have hk : (Memory.load st now {}).claims.lookup k = _ := hload k
    change k ∈ ∅ ∪ (Memory.load st now {}).claims.keys ↔ _
    rw [Finset.empty_union, Finmap.mem_keys, Finmap.mem_keys, ← Finmap.lookup_isSome,
      ← Finmap.lookup_isSome, hk, Option.isSome_map]
  cases listing with
  | error err =>
    refine ⟨fun k => ?_, rfl, hkeys, rfl, rfl⟩
    rw [verifiedBy, hload, Option.map_eq_bind]
    rfl
  | ok listed =>
    have hunv : ∀ k, ((Memory.load st now {}).quarantineLoadedClaims).unverified.lookup k
        = (st.claims.lookup k).map (fun c => (c.dated now).id) := fun k => by
      simp only [Memory.unverified, Table.lookup_pick, hload, hkeys]
      cases hk : st.claims.lookup k with
      | none => rfl
      | some c =>
        have hmem : k ∈ st.claims.keys :=
          Finmap.mem_keys.mpr (Finmap.mem_of_lookup_eq_some hk)
        simp [hmem]
    refine ⟨fun k => ?_, rfl, ?_, rfl, rfl⟩
    · simp only [verifiedBy, Memory.settle, Table.lookup_pick, hload, hunv]
      cases st.claims.lookup k with
      | none => rfl
      | some c => simpa using settleRow_dated listed c
    · change _ = ∅
      refine Finset.eq_empty_iff_forall_notMem.mpr fun k hk => ?_
      simp only [verifiedBy, Memory.settle, hkeys, Finset.mem_filter] at hk
      obtain ⟨hk, hj⟩ := hk
      obtain ⟨c, hc⟩ :=
        Option.isSome_iff_exists.mp (Finmap.lookup_isSome.mpr (Finmap.mem_keys.mp hk))
      simp [Memory.judged, hload, hunv, hc] at hj

/-! ## `New` alone -/

/-- Run by `New`'s thread with nothing else going on, `p` ends in `Q`. -/
abbrev Alone (cfg : Config) (Q : List Ev → α → State → Prop) (p : Code α) (l : List Ev)
    (s : State) :
    Prop :=
  (machine cfg).Solo .boot Q p l s

namespace Alone

theorem look {f : Memory → β} {g : β → Code α}
    (h : Alone cfg Q (g (f s.mem)) (l ++ [.read .boot]) (s.looked .boot)) :
    Alone cfg Q (Prog.look f >>= g) l s := by
  rintro s' ha
  cases ha
  exact h

theorem enter {a : Section} {f : Memory → β} {g : β → Code α}
    (h : Alone cfg Q (g (f s.mem)) (l ++ [.locked .boot a]) (s.entered a)) :
    Alone cfg Q (Prog.enter a f >>= g) l s := by
  rintro s' ha
  cases ha
  exact h

theorem request {e : Request} {g : Reply e → Code α}
    (h : ∀ r s', answer .boot e r s = some s' → Alone cfg Q (g r) (l ++ [.asked .boot e r]) s') :
    Alone cfg Q (VkSandbox.request e >>= g) l s := h

end Alone

/-- What a write leaves behind. -/
structure Wrote (l : List Ev) (s : State) (l' : List Ev) (r : Except ProviderError Unit)
    (s' : State) :
    Prop where
  events : l <+: l'
  mem : s'.mem = s.mem
  ok : r = .ok () → s'.disk.file = .table (s.mem.snapshot none).marshal
  error : ∀ err, r = .error err → s'.disk.file = s.disk.file

theorem alone_write (hp : cfg.statePath = true) (l : List Ev) (s : State) :
    Alone cfg (Wrote l s) (write cfg none) l s := by
  unfold write
  rw [hp]
  refine Alone.look (Alone.request fun r s₁ h₁ => ?_)
  cases r with
  | error err =>
    cases h₁
    exact ⟨by simp only [List.append_assoc, List.prefix_append], rfl, nofun, fun _ _ => rfl⟩
  | ok u =>
    cases h₁
    refine Alone.request fun r s₂ h₂ => ?_
    cases r with
    | error err =>
      cases h₂
      exact ⟨by simp only [List.append_assoc, List.prefix_append], rfl, nofun, fun _ _ => rfl⟩
    | ok u =>
      cases h₂
      refine Alone.request fun r s₃ h₃ => ?_
      cases r with
      | error err =>
        cases h₃
        exact ⟨by simp only [List.append_assoc, List.prefix_append], rfl, nofun, fun _ _ => rfl⟩
      | ok u =>
        cases h₃
        exact ⟨by simp only [List.append_assoc, List.prefix_append], rfl, fun _ => rfl, nofun⟩

theorem alone_persist (hp : cfg.statePath = true) (l : List Ev) (s : State) :
    Alone cfg (Wrote l s) (persist cfg) l s := by
  unfold persist
  refine Alone.request fun _ s₁ h₁ => ?_
  simp only [answer] at h₁
  split at h₁
  case isFalse => cases h₁
  cases h₁
  refine Machine.Solo.call (alone_write hp _ _) fun l' r s₂ hw => ?_
  refine Alone.request fun _ s₃ h₃ => ?_
  simp only [answer] at h₃
  split at h₃
  case isFalse => cases h₃
  cases h₃
  exact ⟨(List.prefix_append _ _).trans (hw.events.trans (List.prefix_append _ _)), hw.mem, hw.ok,
    hw.error⟩

/-- What a verification leaves behind. -/
def NodeAsked (l : List Ev) (s : State) (l' : List Ev) (_ : Bool) (s' : State) : Prop :=
  l <+: l' ∧ s'.disk = s.disk ∧ ∃ listing, s'.mem = verifiedBy listing s.mem ∧
    (s.mem.unverified.keys ≠ ∅ → .asked .boot .sandboxes listing ∈ l')

theorem alone_verify (hl : cfg.lister = true) (l : List Ev) (s : State) :
    Alone cfg (NodeAsked l s) (verifyClaimsAgainstNode cfg) l s := by
  unfold verifyClaimsAgainstNode
  rw [hl]
  refine Alone.look ?_
  split
  · next hk => exact ⟨List.prefix_append _ _, rfl, .error "", rfl, fun hn => absurd hk hn⟩
  · unfold sandboxes
    refine Alone.request fun _ s₁ h₁ => ?_
    cases h₁
    refine Alone.request fun r s₂ h₂ => ?_
    cases r with
    | error err =>
      cases h₂
      exact ⟨by simp only [List.append_assoc, List.prefix_append], rfl, .error err, rfl,
        fun _ => by simp⟩
    | ok listed =>
      cases h₂
      refine Alone.enter ?_
      exact ⟨by simp only [List.append_assoc, List.prefix_append], rfl, .ok listed, rfl,
        fun _ => by simp⟩

/-- What `loadState` leaves behind: nothing it has changed, or the table, loaded. -/
def LoadDone (s : State) (l' : List Ev) (r : Except ProviderError Unit) (s' : State) : Prop :=
  s'.disk = s.disk ∧ (r = .ok () → ∀ st, s.disk.file = .table st →
    ∃ now, second ≤ now ∧ .asked .boot .now now ∈ l' ∧ s'.mem = Memory.load st now s.mem)

theorem alone_loadState (hp : cfg.statePath = true) (l : List Ev) (s : State) :
    Alone cfg (LoadDone s) (loadState cfg) l s := by
  unfold loadState
  rw [hp]
  refine Alone.request fun r s₁ h₁ => ?_
  cases r with
  | failed err =>
    cases h₁
    exact ⟨rfl, fun he => by cases he⟩
  | absent =>
    simp only [answer] at h₁
    split at h₁
    · next hf =>
      cases h₁
      exact ⟨rfl, fun _ st hst => by rw [hst] at hf; cases hf⟩
    · cases h₁
  | undecodable err =>
    simp only [answer] at h₁
    split at h₁
    · cases h₁
      exact ⟨rfl, fun he => by cases he⟩
    · cases h₁
  | decoded st =>
    simp only [answer] at h₁
    split at h₁
    case isFalse => cases h₁
    next hf =>
    cases h₁
    refine Alone.request fun now s₂ h₂ => ?_
    simp only [answer] at h₂
    split at h₂
    case isFalse => cases h₂
    next hnow =>
    cases h₂
    refine Alone.enter ⟨rfl, fun _ st' hst' => ⟨now, hnow, by simp, ?_⟩⟩
    rw [hf] at hst'
    cases hst'
    rfl

/-- **What `New` leaves behind**: with an error, the file as it was; otherwise tables and file are
what the table, the clock and the node say. -/
def NewDone (f : File) (l' : List Ev) (r : Except ProviderError Unit) (s' : State) : Prop :=
  (∀ err, r = .error err → s'.disk.file = f) ∧
  (r = .ok () → ∀ st, f = .table st → ∃ now listing, second ≤ now ∧ .asked .boot .now now ∈ l' ∧
    (st.claims.keys ≠ ∅ → .asked .boot .sandboxes listing ∈ l') ∧ Started st now listing s'.mem ∧
    s'.disk.file = .table s'.mem.all.marshal)

/-- A table without tentative rows is written as it is. -/
theorem Memory.snapshot_of_settled (h : m.tentative = ∅) : m.snapshot none = m.all := by
  have hclaims : (m.snapshot none).claims = m.claims := by
    refine Finmap.ext_lookup fun k => ?_
    simp only [snapshot, Table.lookup_pick, h]
    cases m.claims.lookup k <;> rfl
  exact congrArg (StateFile.mk · m.releasing) hclaims

/-- The rows of a loaded table, all of them unverified. -/
theorem keys_unverified_load (hk : st.claims.keys ≠ ∅) :
    ((Memory.load st now {}).quarantineLoadedClaims).unverified.keys ≠ ∅ := by
  obtain ⟨k, hk⟩ := Finset.nonempty_iff_ne_empty.mpr hk
  obtain ⟨c, hc⟩ := Option.isSome_iff_exists.mp (Finmap.lookup_isSome.mpr (Finmap.mem_keys.mp hk))
  have hload : (Memory.load st now {}).claims.lookup k = some (c.dated now) := by
    simp only [Memory.load, Table.lookup_pick, hc, Claim.dated_eq]
    rfl
  have hq : k ∈ ((Memory.load st now {}).quarantineLoadedClaims).quarantined :=
    Finset.mem_union_right _ (Finmap.mem_keys.mpr (Finmap.mem_of_lookup_eq_some hload))
  have hunv : ((Memory.load st now {}).quarantineLoadedClaims).unverified.lookup k = some c.id := by
    have hrow : ((Memory.load st now {}).quarantineLoadedClaims).claims.lookup k = _ := hload
    simp only [Memory.unverified, Table.lookup_pick, hrow, Option.bind_some, hq, if_true]
    rfl
  exact Finset.ne_empty_of_mem (Finmap.mem_keys.mpr (Finmap.mem_of_lookup_eq_some hunv))

theorem alone_new (hl : cfg.lister = true) (hp : cfg.statePath = true) (hm : s.mem = {}) :
    Alone cfg (NewDone s.disk.file) (new cfg) [] s := by
  unfold new
  refine Machine.Solo.orReturn (alone_loadState hp [] s) ?_ ?_
  · exact fun l err s₁ h₁ => ⟨fun _ _ => by rw [h₁.1], nofun⟩
  · intro l₁ _ s₁ ⟨hdisk₁, hload⟩
    rw [if_pos hl]
    refine Alone.enter ?_
    refine Machine.Solo.call (alone_verify hl _ _)
      fun l₂ _ s₂ ⟨hl₂, hdisk₂, listing, hm₂, hasked⟩ => ?_
    refine Machine.Solo.call (alone_persist hp _ _) fun l₃ r s₃ hw => ?_
    have hdisk : s₂.disk = s.disk := hdisk₂.trans hdisk₁
    cases r with
    | error err => exact ⟨fun _ _ => by rw [hw.error err rfl, hdisk], nofun⟩
    | ok u =>
      refine ⟨nofun, fun _ st hst => ?_⟩
      obtain ⟨now, hnow, hnowl, hmem₁⟩ := hload rfl st hst
      have hm₁ : (s₁.entered .quarantineLoadedClaims).mem
          = (Memory.load st now {}).quarantineLoadedClaims := by
        rw [← hm, ← hmem₁]
        rfl
      have hm₃ : s₃.mem = verifiedBy listing ((Memory.load st now {}).quarantineLoadedClaims) := by
        rw [hw.mem, hm₂, hm₁]
      have hstarted : Started st now listing s₃.mem := hm₃ ▸ started_verifiedBy
      refine ⟨now, listing, hnow, ?_, fun hk => ?_, hstarted, ?_⟩
      · exact hw.events.subset (hl₂.subset (List.mem_append_left _ hnowl))
      · exact hw.events.subset (hasked (by rw [hm₁]; exact keys_unverified_load hk))
      · rw [hw.ok rfl, ← hw.mem, Memory.snapshot_of_settled hstarted.tentative]

/-! ## Calls of `New` -/

/-- **`New` is called in `x` and returns `r` in `y`**, after the events `tr`. -/
def NewCall (cfg : Config) (x : Interleave.Config State Memory Section Request Reply Tid Op Outcome)
    (tr : List Ev) (y : Interleave.Config State Memory Section Request Reply Tid Op Outcome)
    (r : Outcome) : Prop :=
  (∃ file tr₀, CallFrom cfg file tr₀ x .boot .new tr y) ∧
  ∃ y', Step (machine cfg) y (.finished .boot .new r) y'

theorem NewCall.done {r : Outcome} (hl : cfg.lister = true) (hp : cfg.statePath = true)
    (h : NewCall cfg x tr y r) :
    (r ≠ .ok → y.shared.disk.file = x.shared.disk.file) ∧
    (r = .ok → ∀ st, x.shared.disk.file = .table st → ∃ now listing, second ≤ now ∧
      .asked .boot .now now ∈ tr ∧ (st.claims.keys ≠ ∅ → .asked .boot .sandboxes listing ∈ tr) ∧
      Started st now listing y.shared.mem ∧
      y.shared.disk.file = .table y.shared.mem.all.marshal) := by
  obtain ⟨⟨file, tr₀, h₀, ⟨x₁, hstart, hrun⟩, hno⟩, y', hfin⟩ := h
  have h₁ : Runs cfg file (tr₀ ++ [_]) x₁ := Run.snoc h₀ hstart
  have ha : apply (.started .boot .new) x.shared = some x₁.shared := Step.apply hstart
  obtain ⟨-, -, hdown, -, hx₁⟩ | ⟨hne, -⟩ := apply_started ha
  case inr => exact absurd rfl hne
  have halone := (h₁.booting_alone (by rw [hx₁]; rfl) hrun hno).2
  have htask : x₁.tasks .boot = some (.new, code cfg .new) := by
    cases hstart
    change Function.update x.tasks .boot (some (.new, code cfg .new)) .boot = _
    rw [Function.update_self]
  have hm : x₁.shared.mem = {} := by
    rw [hx₁]
    exact h₀.inv.down hdown
  have hdisk : x₁.shared.disk = x.shared.disk := by rw [hx₁]; rfl
  have hsolo : Alone cfg (fun l r s' => ∃ r', r = Outcome.ofExcept r' ∧
      NewDone x.shared.disk.file l r' s') (code cfg .new) [] x₁.shared := by
    refine Machine.Solo.map ((alone_new hl hp hm).mono fun l r s' hr => ⟨r, rfl, ?_⟩)
    rwa [hdisk] at hr
  obtain ⟨p', hp', hend⟩ := Run.solo hrun halone hno htask hsolo
  cases hfin with
  | finished ht _ =>
    cases hp'.symm.trans ht
    obtain ⟨r', rfl, herr, hok⟩ := hend
    cases r' with
    | error err => exact ⟨fun _ => herr err rfl, nofun⟩
    | ok u => exact ⟨fun hr => absurd rfl hr, fun _ => hok rfl⟩

/-! ## `New` on its own result -/

/-- No time of the claim lies in the first second of year 1. -/
def Claim.Representable (c : Claim) : Prop :=
  (c.claimedAt = 0 ∨ second ≤ c.claimedAt) ∧ (c.deadline = 0 ∨ second ≤ c.deadline)

/-- No time of a row does. -/
def StateFile.Representable (st : StateFile) : Prop :=
  ∀ k c, st.claims.lookup k = some c → c.Representable

theorem Claim.marshal_marshal (c : Claim) : c.marshal.marshal = c.marshal := by
  simp only [Claim.marshal, wholeSeconds_idem]

theorem wholeSeconds_ne_zero {i : Time} (h : second ≤ i) : wholeSeconds i ≠ 0 := fun h0 => by
  have hle := le_wholeSeconds h
  rw [h0] at hle
  exact absurd hle (by decide)

theorem Claim.le_claimedAt_dated {c : Claim} (hc : c.Representable) (hnow : second ≤ now) :
    second ≤ (c.dated now).claimedAt := by
  change second ≤ if c.claimedAt = 0 then now else c.claimedAt
  split
  · exact hnow
  · next h0 => exact hc.1.resolve_left h0

/-- A start time, once there, is not filled in again. -/
theorem Claim.dated_marshal {c : Claim} (h : second ≤ c.claimedAt) :
    c.marshal.dated now = c.marshal := by
  have hne : c.marshal.claimedAt ≠ 0 := wholeSeconds_ne_zero h
  unfold Claim.dated
  rw [if_neg hne]

/-- A deadline, once there, is not filled in again, and one too small to be written is filled in as
before. -/
theorem wholeSeconds_refill {d e : Time} (hd : d = 0 ∨ second ≤ d) :
    wholeSeconds (if wholeSeconds (if d = 0 then e else d) = 0 then e
      else wholeSeconds (if d = 0 then e else d)) = wholeSeconds (if d = 0 then e else d) := by
  by_cases hd0 : d = 0
  · simp only [if_pos hd0]
    by_cases he : wholeSeconds e = 0
    · rw [if_pos he]
    · rw [if_neg he, wholeSeconds_idem]
  · have hne : wholeSeconds d ≠ 0 := wholeSeconds_ne_zero (hd.resolve_left hd0)
    simp only [if_neg hd0, if_neg hne, wholeSeconds_idem]

/-- **A row that has been through a start comes through the next one unchanged.** -/
theorem startRow_marshal {now' : Time} {listing' : Except String (List SandboxSummary)}
    {c c₁ : Claim} (hc : c.Representable) (hnow : second ≤ now)
    (hsame : listing.toOption = listing'.toOption) (h : startRow now listing c = some c₁) :
    (startRow now' listing' c₁.marshal).map Claim.marshal = some c₁.marshal := by
  have hat := Claim.le_claimedAt_dated hc hnow
  cases listing with
  | error err =>
    cases listing' with
    | ok listed => cases hsame
    | error err' =>
      cases h
      change some ((c.dated now).marshal.dated now').marshal = _
      rw [Claim.dated_marshal hat, Claim.marshal_marshal]
  | ok listed =>
    cases listing' with
    | error err' => cases hsame
    | ok listed' =>
      cases hsame
      simp only [startRow] at h
      split at h
      case isFalse => cases h
      next hid =>
      have hc₁ := Option.some.inj h
      have hat₁ : second ≤ c₁.claimedAt := by rw [← hc₁]; exact hat
      have hid₁ : c₁.id = c.id := by rw [← hc₁]; rfl
      have hdl₁ : c₁.deadline =
          if c.deadline = 0 then listedDeadline listed c₁.id else c.deadline := by
        rw [hid₁, ← hc₁]
      have hin : c₁.marshal.id ∈ listedIds listed := by rw [Claim.id_marshal, hid₁]; exact hid
      have hrow : startRow now' (.ok listed) c₁.marshal = some { c₁.marshal with
          deadline := if c₁.marshal.deadline = 0 then listedDeadline listed c₁.id
            else c₁.marshal.deadline } := by
        unfold startRow
        rw [Claim.dated_marshal hat₁]
        exact if_pos hin
      rw [hrow, Option.map_some]
      simp only [Claim.marshal, wholeSeconds_idem, hdl₁, wholeSeconds_refill hc.2]

/-- What two calls of `New` heard from the node. -/
def listingReply : Ev → Option (Option (List SandboxSummary))
  | .asked .boot .sandboxes r => some r.toOption
  | _ => none

/-- **The same listing outcome**: the same sandboxes, or a failure both times. -/
def SameListing (tr tr' : List Ev) : Prop :=
  ∀ a ∈ tr.filterMap listingReply, ∀ b ∈ tr'.filterMap listingReply, a = b

theorem SameListing.eq {tr' : List Ev} {listing' : Except String (List SandboxSummary)}
    (h : SameListing tr tr') (hr : .asked .boot .sandboxes listing ∈ tr)
    (hr' : .asked .boot .sandboxes listing' ∈ tr') : listing.toOption = listing'.toOption :=
  h _ (List.mem_filterMap.mpr ⟨_, hr, rfl⟩) _ (List.mem_filterMap.mpr ⟨_, hr', rfl⟩)

theorem StateFile.marshal_eq {st st' : StateFile}
    (hrows : ∀ k, st'.marshal.claims.lookup k = st.claims.lookup k)
    (hrel : st'.marshal.releasing = st.releasing) : st'.marshal = st := by
  obtain ⟨claims, releasing⟩ := st
  have hclaims : st'.marshal.claims = claims := Finmap.ext_lookup hrows
  exact congrArg₂ StateFile.mk hclaims hrel

/-- The file a second start writes is the file it read. -/
theorem Started.again {m' : Memory} {now' : Time} {listing' : Except String (List SandboxSummary)}
    (h : Started st now listing m) (h' : Started m.all.marshal now' listing' m')
    (hst : st.Representable) (hnow : second ≤ now)
    (hsame : st.claims.keys ≠ ∅ → m.all.marshal.claims.keys ≠ ∅ →
      listing.toOption = listing'.toOption) : m'.all.marshal = m.all.marshal := by
  have hkeys : ∀ {st : StateFile} {k c}, st.claims.lookup k = some c → st.claims.keys ≠ ∅ :=
    fun hc => Finset.ne_empty_of_mem (Finmap.mem_keys.mpr (Finmap.mem_of_lookup_eq_some hc))
  have hfile : ∀ (m : Memory) k, m.all.marshal.claims.lookup k
      = (m.claims.lookup k).map Claim.marshal := fun m k => by
    simp only [StateFile.marshal, Memory.all, Table.lookup_pick, Option.map_eq_bind]
    rfl
  refine StateFile.marshal_eq (fun k => ?_) ?_
  · rw [hfile m', h'.rows]
    cases hk : m.all.marshal.claims.lookup k with
    | none => rfl
    | some c' =>
      have hc' := hk
      rw [hfile m] at hc'
      obtain ⟨c₁, hc₁, rfl⟩ := Option.map_eq_some_iff.mp hc'
      rw [h.rows] at hc₁
      obtain ⟨c, hc, hrow⟩ := Option.bind_eq_some_iff.mp hc₁
      exact startRow_marshal (hst k c hc) hnow (hsame (hkeys hc) (hkeys hk)) hrow
  · have hrel : m'.releasing = m.releasing.map Claim.marshal := h'.releasing
    change m'.releasing.map Claim.marshal = m.releasing.map Claim.marshal
    rw [hrel, List.map_map]
    exact List.map_congr_left fun c _ => Claim.marshal_marshal c

/-- **Startup preserves exactly the live credentials.**  A `New` that returns an error leaves the
file as it was.  One that succeeds on a table leaves, in memory and (in whole seconds) in the file,
every row of the table that the node's answer lets stay, filled in and otherwise as it was, and the
release queue as it was.  And `New` on its own result leaves the file alone, if no time of the first
table lies in the first second of year 1. -/
theorem startup_preserves_live_credentials (hl : cfg.lister = true) (hp : cfg.statePath = true) :
    (∀ x tr y r, NewCall cfg x tr y r →
      (r ≠ .ok → y.shared.disk.file = x.shared.disk.file) ∧
      (r = .ok → ∀ st, x.shared.disk.file = .table st → ∃ now listing, second ≤ now ∧
        .asked .boot .now now ∈ tr ∧ (st.claims.keys ≠ ∅ → .asked .boot .sandboxes listing ∈ tr) ∧
        Started st now listing y.shared.mem ∧
        y.shared.disk.file = .table y.shared.mem.all.marshal)) ∧
    ∀ x₁ tr₁ y₁ st x₂ tr₂ y₂ r, NewCall cfg x₁ tr₁ y₁ .ok → x₁.shared.disk.file = .table st →
      st.Representable → NewCall cfg x₂ tr₂ y₂ r → x₂.shared.disk.file = y₁.shared.disk.file →
      SameListing tr₁ tr₂ → y₂.shared.disk.file = y₁.shared.disk.file := by
  refine ⟨fun x tr y r h => h.done hl hp, ?_⟩
  intro x₁ tr₁ y₁ st x₂ tr₂ y₂ r h₁ hst hrep h₂ hfile hsame
  obtain ⟨now, listing, hnow, -, hasked, hstarted, hy₁⟩ := (h₁.done hl hp).2 rfl st hst
  by_cases hr : r = .ok
  · obtain ⟨now', listing', -, -, hasked', hstarted', hy₂⟩ :=
      (h₂.done hl hp).2 hr _ (hfile.trans hy₁)
    rw [hy₁, hy₂, hstarted.again hstarted' hrep hnow fun hk hk' =>
      hsame.eq (hasked hk) (hasked' hk')]
  · rw [(h₂.done hl hp).1 hr, hfile]

/-- A first `New` on a state file, played to its end. -/
theorem exists_newCall (cfg : Config) (file : File) (n : ℕ) (w : World)
    (P : List Ev → State → Prop) [∀ tr s, Decidable (P tr s)]
    (h : (play cfg file []).any (fun p =>
      (p.2.next (machine cfg) (.start .boot .new)).any fun q =>
      (Config.exec (machine cfg) (steps .boot n w) q.2).any fun r =>
      (r.2.next (machine cfg) (.move .boot w.reply)).any fun e =>
        decide ((∀ ev ∈ r.1, ¬ ev.Resets .boot) ∧ p.2.shared.disk.file = file ∧
          returnedOk e.1 = some (.boot, .new) ∧ P r.1 r.2.shared)) = true) :
    ∃ x tr y, NewCall cfg x tr y .ok ∧ x.shared.disk.file = file ∧ P tr y.shared := by
  obtain ⟨tr, x, tr', y, ev, y', hcall, hfin, hx, hret, hP⟩ := exists_call cfg file [] .boot .new
    (steps .boot n w) (.move .boot w.reply)
    (fun s tr s' ev => s.disk.file = file ∧ returnedOk ev = some (.boot, .new) ∧ P tr s') h
  rw [returnedOk_eq_some hret] at hfin
  exact ⟨x, tr', y, ⟨⟨file, tr, hcall⟩, y', hfin⟩, hx, hP⟩

/-- A row of an older table. -/
def olderRow (id : String) : Claim :=
  { sampleClaim id (samplePod "p" "uid-1" []) with claimedAt := 0 }

/-- An older table: a sandbox the node has, one it has lost, and one to be released. -/
def olderTable : StateFile where
  claims := ((∅ : Table Key Claim).insert "ns/p" (olderRow "s1")).insert "ns/q" (olderRow "s2")
  releasing := [olderRow "s3"]

/-- The table a start makes of it. -/
def olderTableStarted : StateFile where
  claims := (∅ : Table Key Claim).insert "ns/p"
    { olderRow "s1" with claimedAt := 5 * second, deadline := 90 * second }
  releasing := [olderRow "s3"]

/-- Two starts on an older table. -/
theorem startup_preserves_live_credentials_of_older_table : ∃ x₁ tr₁ y₁ x₂ tr₂ y₂,
    NewCall fullConfig x₁ tr₁ y₁ .ok ∧ x₁.shared.disk.file = .table olderTable ∧
    (∃ now listing, Started olderTable now listing y₁.shared.mem) ∧
    y₁.shared.disk.file = .table olderTableStarted ∧
    NewCall fullConfig x₂ tr₂ y₂ .ok ∧ SameListing tr₁ tr₂ ∧
    y₂.shared.disk.file = .table olderTableStarted := by
  obtain ⟨x₁, tr₁, y₁, h₁, hx₁, hy₁, hl₁⟩ := exists_newCall fullConfig (.table olderTable) 14
    { file := .decoded olderTable
      listed := .ok [⟨"s1", 90 * second, "ns/p"⟩] }
    (fun tr s => s.disk.file = .table olderTableStarted ∧
      tr.filterMap listingReply = [some [⟨"s1", 90 * second, "ns/p"⟩]])
    (by decide +kernel)
  obtain ⟨x₂, tr₂, y₂, h₂, hx₂, hl₂⟩ := exists_newCall fullConfig (.table olderTableStarted) 14
    { now := 70 * second
      file := .decoded olderTableStarted
      listed := .ok [⟨"s1", 90 * second, "ns/p"⟩] }
    (fun tr _ => tr.filterMap listingReply = [some [⟨"s1", 90 * second, "ns/p"⟩]])
    (by decide +kernel)
  have hsame : SameListing tr₁ tr₂ := by
    unfold SameListing
    rw [hl₁, hl₂]
    simp
  have hrep : olderTable.Representable := by
    intro k c hc
    simp only [olderTable, Table.lookup_insert] at hc
    split at hc
    · cases hc
      exact ⟨.inl rfl, .inl rfl⟩
    · split at hc
      · cases hc
        exact ⟨.inl rfl, .inl rfl⟩
      · simp at hc
  have hmain := @startup_preserves_live_credentials fullConfig rfl rfl
  obtain ⟨now, listing, -, -, -, hstarted, -⟩ := (hmain.1 x₁ tr₁ y₁ .ok h₁).2 rfl olderTable hx₁
  have hagain :=
    hmain.2 x₁ tr₁ y₁ olderTable x₂ tr₂ y₂ .ok h₁ hx₁ hrep h₂ (hx₂.trans hy₁.symm) hsame
  exact ⟨x₁, tr₁, y₁, x₂, tr₂, y₂, h₁, hx₁, ⟨now, listing, hstarted⟩, hy₁, h₂, hsame,
    hagain.trans hy₁⟩

/-- A row whose start time lies in the first second of year 1, and what a start makes of it. -/
def earliestRow (claimedAt : Time) : StateFile :=
  sampleFile "ns/p" { olderRow "s1" with claimedAt := claimedAt }

/-- **`New` on its own result can change the file**: a time in the first second of year 1 is written
as no time at all. -/
theorem second_start_changes_file : ∃ x₁ tr₁ y₁ x₂ tr₂ y₂,
    NewCall fullConfig x₁ tr₁ y₁ .ok ∧ x₁.shared.disk.file = .table (earliestRow 1) ∧
    NewCall fullConfig x₂ tr₂ y₂ .ok ∧ x₂.shared.disk.file = y₁.shared.disk.file ∧
    SameListing tr₁ tr₂ ∧ y₂.shared.disk.file ≠ y₁.shared.disk.file := by
  obtain ⟨x₁, tr₁, y₁, h₁, hx₁, hy₁, hl₁⟩ := exists_newCall fullConfig
    (.table (earliestRow 1)) 14
    { file := .decoded (earliestRow 1)
      listed := .ok [sampleSummary "s1"] }
    (fun tr s => s.disk.file = .table (earliestRow 0) ∧
      tr.filterMap listingReply = [some [sampleSummary "s1"]])
    (by decide +kernel)
  obtain ⟨x₂, tr₂, y₂, h₂, hx₂, hy₂, hl₂⟩ := exists_newCall fullConfig
    (.table (earliestRow 0)) 14
    { file := .decoded (earliestRow 0)
      listed := .ok [sampleSummary "s1"] }
    (fun tr s => s.disk.file ≠ .table (earliestRow 0) ∧
      tr.filterMap listingReply = [some [sampleSummary "s1"]])
    (by decide +kernel)
  refine ⟨x₁, tr₁, y₁, x₂, tr₂, y₂, h₁, hx₁, h₂, hx₂.trans hy₁.symm, ?_, by rwa [hy₁]⟩
  unfold SameListing
  rw [hl₁, hl₂]
  simp

end VkSandbox
