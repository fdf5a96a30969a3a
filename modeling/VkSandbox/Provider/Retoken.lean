import VkSandbox.Machinery.Simulation
import VkSandbox.Provider.Requests

/-!
# Provider/Retoken — the provider with other tokens

sandboxd hands out a token with each sandbox; it is what releases it.  Replace every token by
another, in the first state file and in what sandboxd answers, and follow the tables and the
programs:

    m   ──section──▸  m₁             p     asks e, is told r
    │ retoken f       │ retoken f    │ retoken f
    m'  ──section──▸  m₁'            p'    asks e', is told r'

Every section and every program is the same on both sides but for the tokens.  `orphanVerdicts` is
left out of the comparison: the scan writes it and no program reads it.
-/

namespace VkSandbox

open Interleave Interleave.Prog

variable (f : String → String)

/-! ## The data -/

/-- The claim with another token. -/
def Claim.retoken (c : Claim) : Claim := { c with token := f c.token }

def ClaimResult.retoken (res : ClaimResult) : ClaimResult := { res with token := f res.token }

def StateFile.retoken (st : StateFile) : StateFile where
  claims := st.claims.mapRows (Claim.retoken f)
  releasing := st.releasing.map (Claim.retoken f)

def FileRead.retoken : FileRead → FileRead
  | .decoded st => .decoded (st.retoken f)
  | r => r

def File.retoken : File → File
  | .table st => .table (st.retoken f)
  | file => file

/-- The section with the tokens it carries replaced. -/
def Section.retoken : Section → Section
  | .load st now => .load (st.retoken f) now
  | .insertClaim key pod c => .insertClaim key pod (c.retoken f)
  | .withdrawForRelease key c => .withdrawForRelease key (c.retoken f)
  | a => a

def Request.retoken : Request → Request
  | .sendRelease id token => .sendRelease id (f token)
  | .release id token => .release id (f token)
  | .writeFile st => .writeFile (st.retoken f)
  | e => e

def Reply.retoken : (e : Request) → Reply e → Reply (Request.retoken f e)
  | .claim _, r => r.map (ClaimResult.retoken f)
  | .readFile, r => FileRead.retoken f r
  | .now, r | .rangeOver _, r | .release _ _, r | .sandboxes, r | .getOwner _ _ _ _, r
  | .mkdirAll, r | .writeFile _, r | .rename, r | .sendClaim _, r | .sendRelease _ _, r
  | .sendList, r | .notify _, r | .lockSave, r | .unlockSave, r => r

@[simp] theorem Claim.id_retoken (c : Claim) : (c.retoken f).id = c.id := rfl

theorem StateFile.marshal_retoken (st : StateFile) :
    (st.retoken f).marshal = st.marshal.retoken f := by
  rw [marshal, marshal, retoken, retoken, StateFile.mk.injEq]
  refine ⟨Table.pick_mapRows _ fun _ _ => rfl, ?_⟩
  rw [List.map_map, List.map_map]
  rfl

/-! ## The tables -/

/-- **`m'` is `m` with other tokens**, the scan's verdicts aside. -/
structure Memory.Retokened (m m' : Memory) : Prop where
  pods : m'.pods = m.pods
  claims : m'.claims = m.claims.mapRows (Claim.retoken f)
  notifier : m'.notifier = m.notifier
  tentative : m'.tentative = m.tentative
  quarantined : m'.quarantined = m.quarantined
  releasing : m'.releasing = m.releasing.map (Claim.retoken f)
  ownerRechecks : m'.ownerRechecks = m.ownerRechecks

namespace Memory.Retokened

variable {f} {m m' : Memory}

theorem lookup (h : m.Retokened f m') (k : Key) :
    m'.claims.lookup k = (m.claims.lookup k).map (Claim.retoken f) := by
  rw [h.claims, Table.lookup_mapRows]

theorem settled (h : m.Retokened f m') (k : Key) : m'.settled k = m.settled k := by
  rw [Memory.settled, Memory.settled, h.tentative, h.quarantined]

theorem claimFor (h : m.Retokened f m') (k : Key) :
    m'.claimFor k = (m.claimFor k).map (Claim.retoken f) := by
  rw [Memory.claimFor, Memory.claimFor, h.settled, h.lookup]
  split <;> rfl

theorem podUIDIsCurrent (h : m.Retokened f m') (k : Key) (pod : Pod) :
    m'.podUIDIsCurrent k pod = m.podUIDIsCurrent k pod := by
  rw [Memory.podUIDIsCurrent, Memory.podUIDIsCurrent, h.pods]

theorem unverified (h : m.Retokened f m') : m'.unverified = m.unverified := by
  refine Finmap.ext_lookup fun k => ?_
  rw [Memory.unverified, Memory.unverified, Table.lookup_pick, Table.lookup_pick, h.lookup,
    h.quarantined]
  cases m.claims.lookup k <;> rfl

theorem preserved (h : m.Retokened f m') :
    m'.preserved = m.preserved.mapRows (Claim.retoken f) := by
  rw [Memory.preserved, Memory.preserved, h.claims]
  refine Table.pick_mapRows _ fun k c => ?_
  rw [h.pods, h.settled]
  split <;> next hc => rw [show (c.retoken f).owner = c.owner from rfl] at hc; simp [hc]

theorem candidates (h : m.Retokened f m') (now : Time) :
    m'.candidates now = (m.candidates now).mapRows (Claim.retoken f) := by
  rw [Memory.candidates, Memory.candidates, h.claims]
  refine Table.pick_mapRows _ fun k c => ?_
  rw [h.pods, h.settled, show (c.retoken f).expired now = c.expired now from rfl]
  split <;> rfl

theorem snapshot (h : m.Retokened f m') (committing : Option Key) :
    m'.snapshot committing = (m.snapshot committing).retoken f := by
  rw [Memory.snapshot, Memory.snapshot, StateFile.retoken, StateFile.mk.injEq]
  refine ⟨?_, h.releasing⟩
  rw [h.claims]
  refine Table.pick_mapRows _ fun k c => ?_
  rw [h.tentative]
  split <;> rfl

theorem adopted (h : m.Retokened f m') (k : Key) (pod : Pod) :
    m'.adopted k pod = (m.adopted k pod).map (Claim.retoken f) := by
  rw [Memory.adopted, Memory.adopted, h.lookup]
  cases m.claims.lookup k with
  | none => rfl
  | some c =>
    rw [Option.map_some]
    dsimp only
    rw [h.settled, show (c.retoken f).adoptableBy pod = c.adoptableBy pod from rfl]
    split <;> rfl

theorem withdrawable (h : m.Retokened f m') (k : Key) (c : Claim) :
    m'.withdrawable k (c.retoken f) = m.withdrawable k c := by
  rw [Memory.withdrawable, Memory.withdrawable, h.lookup, h.pods]
  cases m.claims.lookup k <;> rfl

theorem judged (h : m.Retokened f m') (before : Table Key String) (k : Key) :
    m'.judged before k = m.judged before k := by
  rw [Memory.judged, Memory.judged, h.lookup]
  cases m.claims.lookup k <;> rfl

theorem editRow (h : m.Retokened f m') (k : Key) (id : String) {g : Claim → Claim}
    (hg : ∀ c : Claim, g (c.retoken f) = (g c).retoken f) :
    Memory.editRow k id g m'.claims
      = (Memory.editRow k id g m.claims).mapRows (Claim.retoken f) := by
  rw [Memory.editRow, Memory.editRow, h.lookup]
  cases m.claims.lookup k with
  | none => exact h.claims
  | some c =>
    rw [Option.map_some]
    dsimp only
    rw [Claim.id_retoken]
    split
    · rw [Table.mapRows_insert, hg, h.claims]
    · exact h.claims

/-- **Every section does the same to both.** -/
theorem run (h : m.Retokened f m') (a : Section) :
    (a.run m).Retokened f ((a.retoken f).run m') := by
  cases a with
  | load st now =>
    refine { h with claims := ?_, releasing := rfl }
    refine Table.pick_mapRows _ fun k c => ?_
    rw [show (c.retoken f).claimedAt = c.claimedAt from rfl]
    split <;> rfl
  | quarantineLoadedClaims =>
    refine { h with quarantined := ?_ }
    simp only [Section.retoken, Section.run, Memory.quarantineLoadedClaims]
    rw [h.quarantined, h.claims, Table.keys_mapRows]
  | settle before live =>
    refine { h with claims := ?_, quarantined := ?_ }
    · simp only [Section.retoken, Section.run, Memory.settle]
      rw [h.claims]
      refine Table.pick_mapRows _ fun k c => ?_
      rw [Claim.id_retoken]
      split
      · simp only [settleRow, Claim.id_retoken, Option.map_map]
        congr 1
        funext d
        simp only [Function.comp_apply, show (c.retoken f).deadline = c.deadline from rfl]
        split <;> rfl
      · rfl
    · simp only [Section.retoken, Section.run, Memory.settle]
      rw [h.quarantined]
      congr 1
      funext k
      rw [h.judged]
  | dropClaim key id =>
    simp only [Section.retoken, Section.run, Memory.dropClaim, h.lookup]
    cases m.claims.lookup key with
    | none => exact h
    | some c =>
      simp only [Option.map_some, Claim.id_retoken]
      by_cases hid : c.id = id
      · simp only [hid, ↓reduceIte]
        exact { h with claims := by rw [h.claims, Table.mapRows_erase] }
      · simp only [hid, ↓reduceIte]
        exact h
  | refreshDeadline key id deadline => exact { h with claims := h.editRow key id fun _ => rfl }
  | adoptExistingClaim key pod =>
    simp only [Section.retoken, Section.run, Memory.adoptExistingClaim, h.lookup]
    cases m.claims.lookup key with
    | none => exact h
    | some c =>
      simp only [Option.map_some, h.settled,
        show (c.retoken f).adoptableBy pod = c.adoptableBy pod from rfl]
      by_cases hset : (!m.settled key) = true
      · simp only [if_pos hset]
        exact h
      by_cases hadopt : (!c.adoptableBy pod) = true
      · simp only [if_neg hset, if_pos hadopt]
        refine { h with claims := by rw [h.claims, Table.mapRows_erase], releasing := ?_ }
        rw [h.releasing, List.map_append, List.map_singleton]
      · simp only [if_neg hset, if_neg hadopt]
        refine { h with claims := ?_, pods := by rw [h.pods] }
        rw [h.claims, Table.mapRows_insert]
        rfl
  | withdrawClaim key id =>
    have hmarks : ∀ {m m' : Memory}, m.Retokened f m' →
        ({ m with tentative := m.tentative.erase key,
                  quarantined := m.quarantined.erase key } : Memory).Retokened f
          { m' with tentative := m'.tentative.erase key,
                    quarantined := m'.quarantined.erase key } :=
      fun h => { h with tentative := by rw [h.tentative], quarantined := by rw [h.quarantined] }
    simp only [Section.retoken, Section.run, Memory.withdrawClaim, h.lookup]
    refine hmarks ?_
    cases m.claims.lookup key with
    | none => exact h
    | some c =>
      simp only [Option.map_some, Claim.id_retoken]
      by_cases hid : c.id = id
      · simp only [hid, ↓reduceIte]
        exact { h with claims := by rw [h.claims, Table.mapRows_erase], pods := by rw [h.pods] }
      · simp only [hid, ↓reduceIte]
        exact h
  | insertClaim key pod c =>
    refine { h with pods := ?_, claims := ?_, tentative := ?_ }
    · simp only [Section.retoken, Section.run, Memory.insertClaim, h.pods, Claim.id_retoken]
    · simp only [Section.retoken, Section.run, Memory.insertClaim, h.claims, Table.mapRows_insert]
    · simp only [Section.retoken, Section.run, Memory.insertClaim, h.tentative]
  | clearTentative key =>
    exact { h with
      tentative := by simp only [Section.retoken, Section.run, Memory.clearTentative, h.tentative] }
  | updatePod key pod =>
    simp only [Section.retoken, Section.run, Memory.updatePod]
    by_cases ht : key ∈ m.tentative
    · rw [if_pos ht, if_pos (h.tentative ▸ ht)]
      exact h
    · rw [if_neg ht, if_neg (h.tentative ▸ ht)]
      exact { h with pods := by rw [h.pods] }
  | forgetPod key =>
    exact { h with pods := by simp only [Section.retoken, Section.run, Memory.forgetPod, h.pods] }
  | preserveClaim key id owner =>
    refine { h with claims := h.editRow key id fun _ => rfl, pods := ?_ }
    simp only [Section.retoken, Section.run, Memory.preserveClaim, h.pods]
  | withdrawForRelease key c =>
    simp only [Section.retoken, Section.run, Memory.withdrawForRelease, h.withdrawable]
    by_cases hw : m.withdrawable key c = true
    · simp only [if_pos hw]
      refine { h with claims := by rw [h.claims, Table.mapRows_erase], releasing := ?_ }
      rw [h.releasing, List.map_append, List.map_singleton]
    · simp only [if_neg hw]
      exact h
  | dequeue id =>
    refine { h with releasing := ?_ }
    simp only [Section.retoken, Section.run, Memory.dequeue, h.releasing, List.filter_map]
    rfl
  | notifyPods => exact { h with notifier := rfl }
  | pruneRechecks keep =>
    exact { h with ownerRechecks := by simp only [Section.retoken, Section.run, h.ownerRechecks] }
  | setRecheck key r =>
    cases r with
    | none =>
      exact { h with ownerRechecks := by simp only [Section.retoken, Section.run, h.ownerRechecks] }
    | some r =>
      exact { h with ownerRechecks := by simp only [Section.retoken, Section.run, h.ownerRechecks] }
  | setVerdicts verdicts => exact { h with }

end Memory.Retokened

/-! ## The programs -/

/-- The two languages: the same, with other tokens. -/
def tokens : Translation Memory Section Request Reply Memory Section Request Reply where
  Mem := Memory.Retokened f
  sec := Section.retoken f
  req := Request.retoken f
  rep := Reply.retoken f

/-- The two programs do the same but for the tokens, and return the same. -/
abbrev Code.Alike {α : Type} (p p' : Code α) : Prop := p.Carries (tokens f) (fun a a' => a' = a) p'

section Programs

variable {f} {cfg : Config} {α β : Type}

theorem alike_request {Q : α → β → Prop} {e : Request} {g : Reply e → Code α}
    {g' : Reply (Request.retoken f e) → Code β}
    (h : ∀ r, (g r).Carries (tokens f) Q (g' (Reply.retoken f e r))) :
    (request e >>= g).Carries (tokens f) Q (request (Request.retoken f e) >>= g') := .ask h

theorem alike_now {Q : α → β → Prop} {g : Time → Code α} {g' : Time → Code β}
    (h : ∀ now, (g now).Carries (tokens f) Q (g' now)) :
    (request .now >>= g).Carries (tokens f) Q (request .now >>= g') := alike_request (e := .now) h

theorem alike_rangeOver {Q : α → β → Prop} {keys : Finset Key} {g : List Key → Code α}
    {g' : List Key → Code β} (h : ∀ order, (g order).Carries (tokens f) Q (g' order)) :
    (request (.rangeOver keys) >>= g).Carries (tokens f) Q (request (.rangeOver keys) >>= g') :=
  alike_request (e := .rangeOver keys) h

theorem alike_sandboxes {Q : α → β → Prop} {g : Except String (List SandboxSummary) → Code α}
    {g' : Except String (List SandboxSummary) → Code β}
    (h : ∀ r, (g r).Carries (tokens f) Q (g' r)) :
    (sandboxes >>= g).Carries (tokens f) Q (sandboxes >>= g') :=
  alike_request (e := .sendList) fun _ => alike_request (e := .sandboxes) h

theorem alike_release {Q : α → β → Prop} {id token : String} {g : Except String Unit → Code α}
    {g' : Except String Unit → Code β} (h : ∀ r, (g r).Carries (tokens f) Q (g' r)) :
    (release id token >>= g).Carries (tokens f) Q (release id (f token) >>= g') :=
  alike_request (e := .sendRelease id token) fun _ => alike_request (e := .release id token) h

theorem alike_notify (pod : Pod) : Code.Alike f (notify pod) (notify pod) := by
  refine .look fun m m' hm => ?_
  rw [hm.notifier]
  split
  · exact .ask fun _ => .ret rfl
  · exact .ret rfl

theorem alike_write (committing : Option Key) :
    Code.Alike f (write cfg committing) (write cfg committing) := by
  unfold write
  split
  · exact .ret rfl
  refine .look fun m m' hm => alike_request (e := .mkdirAll) fun r => ?_
  cases r with
  | error err => exact .ret rfl
  | ok u =>
    rw [hm.snapshot]
    refine alike_request (e := .writeFile _) fun r => ?_
    cases r with
    | error err => exact .ret rfl
    | ok u =>
      refine alike_request (e := .rename) fun r => ?_
      cases r with
      | error err => exact .ret rfl
      | ok u => exact .ret rfl

theorem alike_persist : Code.Alike f (persist cfg) (persist cfg) := by
  refine alike_request (e := .lockSave) fun _ => (alike_write none).bind fun r r' hr => ?_
  subst hr
  exact alike_request (e := .unlockSave) fun _ => .ret rfl

theorem alike_saveState : Code.Alike f (saveState cfg) (saveState cfg) :=
  alike_persist.bind fun _ _ _ => .ret rfl

theorem alike_commitClaim (key : Key) :
    Code.Alike f (commitClaim cfg key) (commitClaim cfg key) := by
  refine alike_request (e := .lockSave) fun _ => (alike_write (some key)).bind fun r r' hr => ?_
  subst hr
  cases r' with
  | error err => exact alike_request (e := .unlockSave) fun _ => .ret rfl
  | ok u => exact .enter fun _ _ _ => alike_request (e := .unlockSave) fun _ => .ret rfl

theorem alike_verify :
    Code.Alike f (verifyClaimsAgainstNode cfg) (verifyClaimsAgainstNode cfg) := by
  unfold verifyClaimsAgainstNode
  split
  · exact .ret rfl
  refine .look fun m m' hm => ?_
  rw [hm.unverified]
  split
  · exact .ret rfl
  refine alike_sandboxes fun r => ?_
  cases r with
  | error err => exact .ret rfl
  | ok listed => exact .enter fun _ _ _ => .ret rfl

theorem alike_claimVerificationTick :
    Code.Alike f (claimVerificationTick cfg) (claimVerificationTick cfg) := by
  refine alike_verify.bind fun b b' hb => ?_
  subst hb
  split
  · exact .ret rfl
  · refine .read fun m m' hm => .ret ?_
    dsimp only
    rw [hm.quarantined]

theorem alike_resolveUnverified (key : Key) :
    Code.Alike f (resolveUnverifiedClaim cfg key) (resolveUnverifiedClaim cfg key) := by
  refine .look fun m m' hm => ?_
  rw [hm.quarantined]
  split
  · exact .ret rfl
  refine alike_verify.bind fun b b' hb => ?_
  subst hb
  split <;> exact .ret rfl

theorem alike_settleExpired (key : Key) :
    Code.Alike f (settleExpiredClaim cfg key) (settleExpiredClaim cfg key) := by
  refine .look fun m m' hm => ?_
  rw [hm.claimFor]
  cases m.claimFor key with
  | none => exact .ret rfl
  | some c =>
    refine alike_now fun now => ?_
    change Code.Alike f _ (if !c.expired now then _ else _)
    split
    · exact .ret rfl
    split
    · exact .enter fun _ _ _ => .ret rfl
    refine alike_sandboxes fun r => ?_
    cases r with
    | error err => exact .ret rfl
    | ok listed =>
      dsimp only
      rw [Claim.id_retoken]
      cases listed.find? (·.id = c.id) with
      | some row => exact .enter fun _ _ _ => .ret rfl
      | none => exact .enter fun _ _ _ => .ret rfl

theorem alike_clearStranded (key : Key) :
    Code.Alike f (clearStrandedClaim key) (clearStrandedClaim key) := by
  refine .look fun m m' hm => ?_
  have hlook : (if key ∈ m'.tentative then m'.claims.lookup key else none)
      = (if key ∈ m.tentative then m.claims.lookup key else none).map (Claim.retoken f) := by
    rw [hm.tentative, hm.lookup]
    split <;> rfl
  rw [hlook]
  cases if key ∈ m.tentative then m.claims.lookup key else none with
  | none => exact .ret rfl
  | some c =>
    refine alike_release fun r => ?_
    cases r with
    | error err => exact .ret rfl
    | ok u => exact .enter fun _ _ _ => .ret rfl

theorem alike_undo (key : Key) (c : Claim) (err : ProviderError) :
    Code.Alike f (undoUnpersistedClaim cfg key c err)
      (undoUnpersistedClaim cfg key (c.retoken f) err) := by
  refine alike_release fun r => ?_
  cases r with
  | error err => exact .ret rfl
  | ok u => exact .enter fun _ _ _ => .ret rfl

theorem alike_recordClaim (pod : Pod) (res : ClaimResult) :
    Code.Alike f (recordClaim cfg pod res) (recordClaim cfg pod (res.retoken f)) := by
  refine alike_now fun now => .enter fun _ _ _ => ?_
  refine (alike_commitClaim pod.key).bind fun r r' hr => ?_
  subst hr
  cases r' with
  | error err => exact alike_undo pod.key (.ofResult res pod now) err
  | ok u => exact (alike_notify _).bind fun _ _ _ => .ret rfl

theorem alike_claimFresh (pod : Pod) : Code.Alike f (claimFresh cfg pod) (claimFresh cfg pod) := by
  unfold claimFresh
  split
  · exact .ret rfl
  next spec _ =>
  refine alike_request (e := .sendClaim spec) fun _ => alike_request (e := .claim spec) fun r => ?_
  cases r with
  | error err => exact .ret rfl
  | ok res => exact alike_recordClaim pod res

theorem alike_createPod (pod : Pod) : Code.Alike f (createPod cfg pod) (createPod cfg pod) := by
  unfold createPod
  dsimp only
  split
  · exact .ret rfl
  refine (alike_resolveUnverified _).orReturn fun _ => (alike_settleExpired _).orReturn fun _ => ?_
  refine .enter fun m m' hm => ?_
  rw [hm.adopted]
  cases m.adopted pod.key pod with
  | some c => exact alike_saveState.bind fun _ _ _ => (alike_notify _).bind fun _ _ _ => .ret rfl
  | none => exact (alike_clearStranded _).orReturn fun _ => alike_claimFresh pod

theorem alike_updatePod (pod : Pod) : Code.Alike f (updatePod cfg pod) (updatePod cfg pod) := by
  refine .look fun m m' hm => ?_
  rw [hm.podUIDIsCurrent]
  split
  · exact .ret rfl
  refine .enter fun m m' hm => ?_
  rw [hm.tentative]
  split
  · exact alike_createPod pod
  · exact .ret rfl

theorem alike_destroyAuthorized (key : Key) (ns : String) (owner : Option OwnerReference) :
    Code.Alike f (destroyAuthorized cfg key ns owner) (destroyAuthorized cfg key ns owner) := by
  cases owner with
  | none => exact .ret rfl
  | some ref =>
    simp only [destroyAuthorized]
    split
    · exact .ret rfl
    split
    · exact .ret rfl
    · exact alike_request (e := .getOwner _ _ _ _) fun _ => .ret rfl

theorem alike_deletePod (pod : Pod) : Code.Alike f (deletePod cfg pod) (deletePod cfg pod) := by
  refine .look fun m m' hm => ?_
  rw [hm.podUIDIsCurrent]
  split
  · exact .ret rfl
  refine .look fun m m' hm => ?_
  rw [hm.lookup]
  cases m.claims.lookup pod.key with
  | none => exact .enter fun _ _ _ => .ret rfl
  | some c =>
    refine (alike_destroyAuthorized _ _ _).bind fun v v' hv => ?_
    subst hv
    obtain ⟨verdict, reason⟩ := v'
    cases verdict with
    | preserve => exact .enter fun _ _ _ => alike_saveState.bind fun _ _ _ => .ret rfl
    | release =>
      refine alike_release fun r => ?_
      cases r with
      | error err => exact .ret rfl
      | ok u => exact .enter fun _ _ _ => alike_saveState.bind fun _ _ _ => .ret rfl

theorem alike_recheckOwner (now : Time) (base : ℕ) (key : Key) (c : Claim) :
    Code.Alike f (recheckOwner cfg now base key c)
      (recheckOwner cfg now base key (c.retoken f)) := by
  refine .look fun m m' hm => ?_
  rw [hm.ownerRechecks]
  split
  · exact .ret rfl
  refine (alike_destroyAuthorized _ _ _).bind fun v v' hv => ?_
  subst hv
  obtain ⟨verdict, reason⟩ := v'
  cases verdict with
  | preserve => exact .enter fun _ _ _ => .ret rfl
  | release =>
    refine .enter fun m m' hm => ?_
    rw [hm.withdrawable]
    exact .enter fun _ _ _ => .ret rfl

theorem alike_recheckLoop (now : Time) (base : ℕ) (rows : Table Key Claim) (keys : List Key)
    (changed : Bool) : Code.Alike f (recheckLoop cfg now base rows keys changed)
      (recheckLoop cfg now base (rows.mapRows (Claim.retoken f)) keys changed) := by
  induction keys generalizing changed with
  | nil => exact .ret rfl
  | cons key rest ih =>
    unfold recheckLoop
    rw [Table.lookup_mapRows]
    cases rows.lookup key with
    | none => exact ih changed
    | some c =>
      refine (alike_recheckOwner now base key c).bind fun b b' hb => ?_
      subst hb
      exact ih _

theorem alike_drainLoop (q : List Claim) (released : Bool) :
    Code.Alike f (drainLoop q released) (drainLoop (q.map (Claim.retoken f)) released) := by
  induction q generalizing released with
  | nil => exact .ret rfl
  | cons c rest ih =>
    refine alike_release fun r => ?_
    cases r with
    | error err => exact ih released
    | ok u => exact .enter fun _ _ _ => ih true

theorem alike_drainReleases : Code.Alike f drainReleases drainReleases := by
  refine .look fun m m' hm => ?_
  rw [hm.releasing]
  exact alike_drainLoop _ _

theorem alike_recheckOwners (now : Time) (base : ℕ) :
    Code.Alike f (recheckOwners cfg now base) (recheckOwners cfg now base) := by
  refine .look fun m m' hm => ?_
  rw [hm.preserved, Table.keys_mapRows]
  refine .enter fun _ _ _ => alike_rangeOver fun order => ?_
  refine (alike_recheckLoop now base _ _ _).bind fun b b' hb => ?_
  subst hb
  refine alike_drainReleases.bind fun b b' hb => ?_
  subst hb
  split
  · exact alike_saveState
  · exact .ret rfl

theorem alike_publishLoop (rows : Table Key Claim) (live : Table String Time) (keys : List Key) :
    Code.Alike f (publishLoop cfg rows live keys)
      (publishLoop cfg (rows.mapRows (Claim.retoken f)) live keys) := by
  induction keys with
  | nil => exact .ret rfl
  | cons key rest ih =>
    unfold publishLoop
    rw [Table.lookup_mapRows]
    cases rows.lookup key with
    | none => exact ih
    | some c =>
      dsimp only [Option.map_some]
      rw [Claim.id_retoken]
      cases live.lookup c.id with
      | some deadline => exact .enter fun _ _ _ => ih
      | none =>
        refine .look fun m m' hm => ?_
        rw [hm.pods, hm.lookup]
        cases m.pods.lookup key with
        | none => exact ih
        | some pod =>
          cases m.claims.lookup key with
          | none => exact ih
          | some current =>
            change Code.Alike f (if current.id = c.id then _ else _)
              (if current.id = c.id then _ else _)
            by_cases hid : current.id = c.id
            · rw [if_pos hid, if_pos hid]
              exact (alike_notify (expiredPod cfg.platform pod c)).bind fun _ _ _ => ih
            · rw [if_neg hid, if_neg hid]
              exact ih

theorem alike_publishExpiredLeases :
    Code.Alike f (publishExpiredLeases cfg) (publishExpiredLeases cfg) := by
  refine alike_now fun now => .look fun m m' hm => ?_
  rw [hm.candidates, Table.keys_mapRows]
  split
  · exact .ret rfl
  split
  · exact alike_rangeOver fun order => alike_publishLoop _ _ _
  refine alike_sandboxes fun r => ?_
  cases r with
  | error err => exact .ret rfl
  | ok listed => exact alike_rangeOver fun order => alike_publishLoop _ _ _

theorem alike_orphanScan : Code.Alike f (orphanScan cfg) (orphanScan cfg) := by
  unfold orphanScan
  split
  · exact .ret rfl
  refine alike_sandboxes fun r => ?_
  cases r with
  | error err => exact .ret rfl
  | ok listed =>
    refine .look fun m m' hm => ?_
    have hverdict : ∀ claimed : Table String Key,
        listedVerdict claimed m'.releasing = listedVerdict claimed m.releasing := by
      intro claimed
      funext s
      rw [listedVerdict, listedVerdict, hm.releasing, List.any_map]
      rfl
    dsimp only [id]
    simp only [hverdict]
    rw [hm.claims, Table.keys_mapRows]
    refine alike_rangeOver fun order => ?_
    generalize hc : List.foldl _ (∅ : Table String Key) order = claimed
    generalize hc' : List.foldl _ (∅ : Table String Key) order = claimed'
    have hbuild : claimed = Table.build m.claims.lookup (fun _ c => c.id)
        (fun key _ => key) order ∅ :=
      hc ▸ Table.foldl_eq_build (fun _ _ _ h => by simp only [h]) fun _ _ h => by simp only [h]
    have hbuild' : claimed' = Table.build m.claims.lookup (fun _ c => c.id)
        (fun key _ => key) order ∅ :=
      hc' ▸ Table.foldl_eq_build
        (fun _ _ _ h => by simp only [Table.lookup_mapRows, h, Option.map_some, Claim.id_retoken])
        fun _ _ h => by simp only [Table.lookup_mapRows, h, Option.map_none]
    obtain rfl : claimed' = claimed := hbuild'.trans hbuild.symm
    exact alike_rangeOver fun ids => .enter fun _ _ _ => .ret rfl

theorem alike_new : Code.Alike f (new cfg) (new cfg) := by
  have hload : Code.Alike f (loadState cfg) (loadState cfg) := by
    unfold loadState
    split
    · exact .ret rfl
    refine alike_request (e := .readFile) fun r => ?_
    cases r with
    | decoded st => exact alike_now fun now => .enter fun _ _ _ => .ret rfl
    | _ => exact .ret rfl
  refine hload.orReturn fun _ => ?_
  split
  · refine .enter fun _ _ _ => alike_verify.bind fun _ _ _ => alike_persist.bind fun r r' hr => ?_
    subst hr
    cases r' <;> exact .ret rfl
  · refine alike_persist.bind fun r r' hr => ?_
    subst hr
    cases r' <;> exact .ret rfl

/-- **Every call does the same with other tokens.** -/
theorem alike_code (op : Op) : Code.Alike f (code cfg op) (code cfg op) := by
  have hmap : ∀ {α : Type} {p : Code α} {g : α → Outcome}, Code.Alike f p p →
      Code.Alike f (g <$> p) (g <$> p) := fun hp => .map (hp.mono fun _ _ h => congrArg _ h)
  cases op with
  | new => exact hmap alike_new
  | createPod pod => exact hmap (alike_createPod pod)
  | updatePod pod => exact hmap (alike_updatePod pod)
  | deletePod pod => exact hmap (alike_deletePod pod)
  | claimVerification => exact hmap alike_claimVerificationTick
  | publishExpiredLeases => exact alike_publishExpiredLeases.bind fun _ _ _ => .ret rfl
  | recheckOwners now base => exact (alike_recheckOwners now base).bind fun _ _ _ => .ret rfl
  | orphanScan => exact hmap alike_orphanScan
  | notifyPods => exact .enter fun _ _ _ => .ret rfl

end Programs

end VkSandbox
