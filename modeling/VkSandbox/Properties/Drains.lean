import VkSandbox.Machinery.Performs
import VkSandbox.Properties.Scenario

/-!
# Properties/Drains — a drain keeps exactly the releases that failed

`drainReleases` walks a copy of the queue and strikes off the live one, while adoptions go on
appending to it:

    copy     a      b      c             walked in order, one Release each
    live    [a b c]     [b c d]     [b c d e]     [b d e]
               │ a: nil     │ b: err          │ c: nil

`text_drainReleases` says what the walk performs; `queueAfter` is what any event does to the live
queue, and distributes over it, so that the two meet only in the ids struck off.
-/

namespace VkSandbox

open Interleave Interleave.Prog

/-! ## What is performed -/

/-- What the owner re-check itself does in a trace. -/
def recheckEvents (tr : List Ev) : List Ev := tr.filter (·.tid = some .ownerRecheck)

/-- A Release that is sent. -/
def releaseCall : Ev → Option Credential
  | .asked _ (.sendRelease id token) _ => some ⟨id, token⟩
  | _ => none

/-- A Release that is answered. -/
def releaseReply : Ev → Option (Credential × Except String Unit)
  | .asked _ (.release id token) r => some (⟨id, token⟩, r)
  | _ => none

/-- The id an event strikes off the release queue. -/
def struckOff : Ev → Option String
  | .locked _ (.dequeue id) => some id
  | _ => none

/-- The entries whose Release succeeded. -/
def releasedOf (q : List Claim) (outcomes : List (Except String Unit)) : List Claim :=
  ((q.zip outcomes).filter fun p => p.2.isOk).map Prod.fst

/-- The entries whose Release failed. -/
def failedOf (q : List Claim) (outcomes : List (Except String Unit)) : List Claim :=
  ((q.zip outcomes).filter fun p => !p.2.isOk).map Prod.fst

/-- Where the ids are distinct, what failed is what did not succeed. -/
theorem failedOf_eq_filter {q : List Claim} {outcomes : List (Except String Unit)}
    (hids : (q.map Claim.id).Nodup) (hlen : outcomes.length = q.length) :
    failedOf q outcomes = q.filter fun c => c.id ∉ (releasedOf q outcomes).map Claim.id := by
  induction q generalizing outcomes with
  | nil => rfl
  | cons c q ih =>
    obtain ⟨hc, hq⟩ := List.nodup_cons.mp hids
    cases outcomes with
    | nil => simp at hlen
    | cons r outcomes =>
      have hrest := ih hq (by simpa using hlen)
      -- no other entry has the id of this one
      have hsub : (releasedOf q outcomes).map Claim.id ⊆ q.map Claim.id := by
        refine List.map_subset _ fun c' hc' => ?_
        obtain ⟨p, hp, rfl⟩ := List.mem_map.mp hc'
        exact (List.of_mem_zip (List.mem_of_mem_filter hp)).1
      cases r with
      | error err =>
        have hfail : failedOf (c :: q) (.error err :: outcomes) = c :: failedOf q outcomes := rfl
        have hrel : releasedOf (c :: q) (.error err :: outcomes) = releasedOf q outcomes := rfl
        rw [hfail, hrel, hrest, List.filter_cons_of_pos (by simpa using fun h => hc (hsub h))]
      | ok u =>
        have hfail : failedOf (c :: q) (.ok u :: outcomes) = failedOf q outcomes := rfl
        have hrel : releasedOf (c :: q) (.ok u :: outcomes) = c :: releasedOf q outcomes := rfl
        rw [hfail, hrel, hrest, List.filter_cons_of_neg (by simp)]
        refine List.filter_congr fun c' hc' => ?_
        have hne : c'.id ≠ c.id := fun he => hc (he ▸ List.mem_map_of_mem hc')
        simp [hne]

/-- **What a drain of `q` has done**, given the outcome of each Release. -/
structure Drained (q : List Claim) (outcomes : List (Except String Unit)) (evs : List Ev) :
    Prop where
  length : outcomes.length = q.length
  calls : evs.filterMap releaseCall = q.map Claim.cred
  replies : evs.filterMap releaseReply = (q.map Claim.cred).zip outcomes
  struck : evs.filterMap struckOff = (releasedOf q outcomes).map Claim.id

namespace Drained

variable {q : List Claim} {outcomes : List (Except String Unit)} {evs : List Ev}

theorem nil : Drained [] [] [] := ⟨rfl, rfl, rfl, rfl⟩

theorem failed (h : Drained q outcomes evs) (c : Claim) (u : Unit) (err : String) :
    Drained (c :: q) (.error err :: outcomes) (.asked .ownerRecheck (.sendRelease c.id c.token) u ::
      .asked .ownerRecheck (.release c.id c.token) (.error err) :: evs) where
  length := congrArg (· + 1) h.length
  calls := congrArg (c.cred :: ·) h.calls
  replies := congrArg (List.cons (c.cred, (.error err : Except String Unit))) h.replies
  struck := h.struck

theorem released (h : Drained q outcomes evs) (c : Claim) (u u' : Unit) :
    Drained (c :: q) (.ok u' :: outcomes) (.asked .ownerRecheck (.sendRelease c.id c.token) u ::
      .asked .ownerRecheck (.release c.id c.token) (.ok u') ::
      .locked .ownerRecheck (.dequeue c.id) :: evs) where
  length := congrArg (· + 1) h.length
  calls := congrArg (c.cred :: ·) h.calls
  replies := congrArg (List.cons (c.cred, (.ok u' : Except String Unit))) h.replies
  struck := congrArg (c.id :: ·) h.struck

end Drained

variable {cfg : Config} {file : File} {tr tr' : List Ev} {b : Bool}
  {x y : Interleave.Config State Memory Section Request Reply Tid Op Outcome}

theorem text_drainLoop (q : List Claim) (released : Bool) (l : List Entry) :
    Text cfg .ownerRecheck (fun _ _ _ => True) (fun l' b => ∃ d outcomes, l' = l ++ d ∧
      Drained q outcomes (d.map Prod.fst) ∧ b = (released || outcomes.any Except.isOk))
      (drainLoop q released) l := by
  induction q generalizing released l with
  | nil => exact ⟨[], [], by simp, .nil, by simp⟩
  | cons c rest ih =>
    refine Text.request fun u s₁ _ _ => ⟨trivial, Text.request fun r s₂ _ _ => ⟨trivial, ?_⟩⟩
    cases r with
    | error err =>
      refine (ih released _).mono fun l' b => ?_
      rintro ⟨d, outcomes, rfl, hd, rfl⟩
      exact ⟨(_, s₁) :: (_, s₂) :: d, _, by simp, hd.failed c u err, rfl⟩
    | ok u' =>
      refine Text.enter fun s₃ => ⟨trivial, (ih true _).mono fun l' b => ?_⟩
      rintro ⟨d, outcomes, rfl, hd, rfl⟩
      exact ⟨(_, s₁) :: (_, s₂) :: (_, s₃) :: d, _, by simp, hd.released c u u',
        by simp [Except.isOk, Except.toBool]⟩

/-- **The walk of a drain**: one look at the queue, then one Release for each entry found there. -/
theorem text_drainReleases :
    Text cfg .ownerRecheck (fun _ _ _ => True) (fun l b => ∃ s d outcomes,
      l = (.read .ownerRecheck, s) :: d ∧ Drained s.mem.releasing outcomes (d.map Prod.fst) ∧
      b = outcomes.any Except.isOk) drainReleases [] := by
  refine Text.look fun s => ⟨trivial, (text_drainLoop _ false _).mono fun l b => ?_⟩
  rintro ⟨d, outcomes, rfl, hd, rfl⟩
  exact ⟨s, d, outcomes, rfl, hd, by simp⟩

/-! ## The live queue -/

/-- What a section puts on the release queue. -/
def Section.queues (a : Section) (m : Memory) : List Claim :=
  match a with
  | .adoptExistingClaim key pod =>
    match m.claims.lookup key with
    | some c => if m.settled key ∧ c.adoptableBy pod = false then [c] else []
    | none => []
  | .withdrawForRelease key c => if m.withdrawable key c then [c] else []
  | _ => []

/-- What an event puts on the release queue. -/
def appendedBy : Entry → List Claim
  | (.locked _ a, s) => a.queues s.mem
  | _ => []

/-- What an event leaves of a queue. -/
def queueAfter (q : List Claim) (e : Entry) : List Claim :=
  (q.filter fun c => struckOff e.1 ≠ some c.id) ++ appendedBy e

/-- The entries put on the queue along a trace, in order. -/
def appended (cfg : Config) (s : State) (tr : List Ev) : List Claim :=
  (machine cfg).history (fun l e => l ++ appendedBy e) [] s tr

/-- Those of them that no event has struck off since. -/
def stillQueued (cfg : Config) (s : State) (tr : List Ev) : List Claim :=
  (machine cfg).history queueAfter [] s tr

theorem filter_not_struck {ev : Ev} (h : struckOff ev = none) (q : List Claim) :
    (q.filter fun c => struckOff ev ≠ some c.id) = q := by
  simp [h]

/-- **One event**: short of a load, the queue it leaves is the one it found, edited. -/
theorem releasing_step {ev : Ev} {s s' : State} (h : apply ev s = some s')
    (hend : EndsProcess ev = false) (hload : ∀ t st now, ev ≠ .locked t (.load st now)) :
    s'.mem.releasing = queueAfter s.mem.releasing (ev, s) := by
  cases ev with
  | locked t a =>
    cases h
    change (a.run s.mem).releasing = _
    rw [Section.releasing_run]
    cases a with
    | load st now => exact absurd rfl (hload t st now)
    | dequeue id => simp [queueAfter, struckOff, appendedBy, Section.queues, eq_comm]
    | adoptExistingClaim key pod =>
      rw [queueAfter, filter_not_struck rfl]
      rfl
    | _ => simp [queueAfter, struckOff, appendedBy, Section.queues]
  | _ =>
    obtain ⟨hm, -⟩ | ⟨t, a, he, -⟩ | ⟨he, -⟩ := (effect h).tables
    · simp [queueAfter, struckOff, appendedBy, hm]
    · cases he
    · rw [hend] at he
      cases he

/-- **Over a stretch**: of what was there it leaves what no event has struck off, and behind it what
is left of the entries appended meanwhile. -/
theorem history_queueAfter (h : Run (machine cfg) x tr y) (q q' : List Claim) :
    (machine cfg).history queueAfter (q ++ q') x.shared tr
      = (q.filter fun c => c.id ∉ tr.filterMap struckOff)
        ++ (machine cfg).history queueAfter q' x.shared tr := by
  induction h with
  | nil => simp [Machine.history]
  | @snoc tr x₁ ev x₂ h hs ih =>
    rw [h.history_snoc hs, h.history_snoc hs, ih]
    simp only [queueAfter, List.filter_append, List.filter_filter, List.filterMap_append,
      List.append_assoc]
    congr 1
    refine List.filter_congr fun c _ => ?_
    cases hst : struckOff ev with
    | none => simp [List.filterMap_cons_none hst]
    | some id =>
      rw [List.filterMap_cons_some hst]
      by_cases hid : c.id = id
      · simp [hid]
      · simp [hid, Ne.symm hid]

/-- What is left of the appended entries is some of them. -/
theorem stillQueued_sublist (h : Run (machine cfg) x tr y) :
    (stillQueued cfg x.shared tr).Sublist (appended cfg x.shared tr) := by
  induction h with
  | nil => exact .refl _
  | @snoc tr x₁ ev x₂ h hs ih =>
    unfold stillQueued appended at ih ⊢
    rw [h.history_snoc hs, h.history_snoc hs]
    exact (List.filter_sublist.trans ih).append (.refl _)

/-- All of them that carry no id struck off. -/
theorem sublist_stillQueued {ids : List String} (h : Run (machine cfg) x tr y)
    (hids : tr.filterMap struckOff ⊆ ids) :
    ((appended cfg x.shared tr).filter fun c => c.id ∉ ids).Sublist
      (stillQueued cfg x.shared tr) := by
  induction h with
  | nil => exact .refl _
  | @snoc tr x₁ ev x₂ h hs ih =>
    rw [List.filterMap_append] at hids
    have ih' := ih fun id hid => hids (List.mem_append_left _ hid)
    unfold stillQueued appended at ih' ⊢
    rw [h.history_snoc hs, h.history_snoc hs, List.filter_append]
    refine List.Sublist.append ?_ List.filter_sublist
    refine List.Sublist.trans ?_ (ih'.filter _)
    rw [List.filter_filter]
    refine (List.filter_congr fun c _ => ?_).symm ▸ .refl _
    -- an id the last event strikes off is one of `ids`
    by_cases hid : c.id ∈ ids
    · simp [hid]
    · have hne : struckOff ev ≠ some c.id := fun hst =>
        hid (hids (List.mem_append_right _ (by simp [hst])))
      simp [hid, hne]

/-- **Over the life of a process** the queue is edited, event by event. -/
theorem releasing_history (h : Runs cfg file tr x) (h' : Run (machine cfg) x tr' y)
    (hup : x.shared.phase = .up) (hno : ∀ ev ∈ tr', ev ≠ .crashed) :
    y.shared.mem.releasing
      = (machine cfg).history queueAfter x.shared.mem.releasing x.shared tr' := by
  induction h' with
  | nil => rfl
  | @snoc tr₁ x₁ ev x₂ h₁ hs ih =>
    have hno₁ : ∀ ev ∈ tr₁, ev ≠ .crashed := fun ev hev => hno ev (List.mem_append_left _ hev)
    have hup₁ : x₁.shared.phase = .up := (h.evolves h₁ hup hno₁).phase.trans hup
    obtain ⟨hg, ha⟩ := Runs.next (Run.append h h₁ : Runs cfg file (tr ++ tr₁) x₁) hs
    rw [h₁.history_snoc hs, ← ih hno₁]
    refine releasing_step ha ?_ fun t st now he => ?_
    · cases hend : EndsProcess ev with
      | false => rfl
      | true =>
        have hb := booting_of_ends hend hg (hno ev (by simp))
        rw [hup₁] at hb
        cases hb
    · subst he
      obtain ⟨hlive, rfl, -⟩ := hg
      change x₁.shared.phase = .booting at hlive
      rw [hup₁] at hlive
      cases hlive

/-- Only the owner re-check strikes off. -/
theorem struckOff_own (h : Runs cfg file tr x) (h' : Run (machine cfg) x tr' y) :
    tr'.filterMap struckOff = (recheckEvents tr').filterMap struckOff := by
  rw [recheckEvents, List.filterMap_filter]
  refine List.filterMap_congr fun ev hev => ?_
  split
  · rfl
  · next hn =>
    obtain ⟨tr₁, tr₂, rfl⟩ := List.append_of_mem hev
    obtain ⟨x₁, x₂, h₁, hs, -⟩ := h'.split
    obtain ⟨hg, -⟩ := Runs.next (Run.append h h₁ : Runs cfg file (tr ++ tr₁) x₁) hs
    cases ev with
    | locked t a =>
      cases a with
      | dequeue id => exact absurd (decide_eq_true (congrArg some hg.2.1)) hn
      | _ => rfl
    | _ => rfl

/-! ## The result -/

/-- **A drain**: from the look at the queue to the end of the walk. -/
structure Drain (cfg : Config) (file : File) (tr : List Ev)
    (x : Interleave.Config State Memory Section Request Reply Tid Op Outcome) (tr' : List Ev)
    (b : Bool) (y : Interleave.Config State Memory Section Request Reply Tid Op Outcome) :
    Prop where
  before : Runs cfg file tr x
  executes : Executes (machine cfg) .ownerRecheck drainReleases x tr' b y
  first : tr'.head? = some (.read .ownerRecheck)

namespace Drain

variable (h : Drain cfg file tr x tr' b y)
include h

theorem up : x.shared.phase = .up := by
  obtain ⟨tr₁, rfl⟩ := List.head?_eq_some_iff.mp h.first
  obtain ⟨x₁, hs, -⟩ := h.executes.run.head
  exact (h.before.next hs).1

/-- What it has done, to the queue it found first. -/
theorem drained : ∃ outcomes, Drained x.shared.mem.releasing outcomes (recheckEvents tr') ∧
    b = outcomes.any Except.isOk := by
  obtain ⟨s, d, outcomes, hj, hd, rfl⟩ := h.executes.text text_drainReleases
  have hevs := h.executes.run.journal_events h.executes.whole
  obtain ⟨tr₁, rfl⟩ := List.head?_eq_some_iff.mp h.first
  obtain ⟨x₁, hs, -⟩ := h.executes.run.head
  have hwhole : ∀ ev ∈ tr₁, ¬ ev.Resets .ownerRecheck := fun ev hev =>
    h.executes.whole ev (List.mem_cons_of_mem _ hev)
  -- the first entry of the journal found the state the drain began in
  have hfirst : (machine cfg).journal .ownerRecheck [] x.shared (.read .ownerRecheck :: tr₁)
      = (.read .ownerRecheck, x.shared) :: (machine cfg).journal .ownerRecheck [] x₁.shared tr₁ :=
    hs.journal_cons rfl (fun h => h) hwhole
  rw [hfirst] at hj
  cases hj
  refine ⟨outcomes, ?_, rfl⟩
  rw [recheckEvents, ← hevs, hfirst]
  exact ⟨hd.length, hd.calls, hd.replies, hd.struck⟩

end Drain

/-- **A drain keeps exactly the releases that failed.**  It calls Release once for each entry it
found, in order and with its own token; what it leaves is the entries whose Release failed, and
behind them the entries appended meanwhile, of which it may only have struck off such as carry the
id of an entry whose Release succeeded.  It returns true just when some Release succeeded. -/
theorem drain_keeps_failed_releases (h : Drain cfg file tr x tr' b y)
    (hids : (x.shared.mem.releasing.map Claim.id).Nodup) :
    ∃ outcomes kept, outcomes.length = x.shared.mem.releasing.length ∧
      (recheckEvents tr').filterMap releaseCall = x.shared.mem.releasing.map Claim.cred ∧
      (recheckEvents tr').filterMap releaseReply
        = (x.shared.mem.releasing.map Claim.cred).zip outcomes ∧
      y.shared.mem.releasing = failedOf x.shared.mem.releasing outcomes ++ kept ∧
      kept.Sublist (appended cfg x.shared tr') ∧
      ((appended cfg x.shared tr').filter fun c =>
        c.id ∉ (releasedOf x.shared.mem.releasing outcomes).map Claim.id).Sublist kept ∧
      (b = true ↔ .ok () ∈ outcomes) := by
  obtain ⟨outcomes, hd, hb⟩ := h.drained
  have hrun := h.executes.run
  have hstruck := (struckOff_own h.before hrun).trans hd.struck
  refine ⟨outcomes, stillQueued cfg x.shared tr', hd.length, hd.calls, hd.replies, ?_,
    stillQueued_sublist hrun, sublist_stillQueued hrun (hstruck ▸ List.Subset.refl _), ?_⟩
  · have hq := releasing_history h.before hrun h.up (not_crashed_of_resets h.executes.whole)
    rw [← List.append_nil x.shared.mem.releasing, history_queueAfter hrun, hstruck] at hq
    rw [hq, failedOf_eq_filter hids hd.length]
    rfl
  · rw [hb, List.any_eq_true]
    constructor
    · rintro ⟨r, hr, hok⟩
      cases r with
      | error err => cases hok
      | ok u => exact hr
    · exact fun hok => ⟨.ok (), hok, rfl⟩

/-- The code of a pass: what it does about the owners, then the drain. -/
theorem code_recheckOwners (now : Time) (base : ℕ) :
    ∃ (owners : Code Bool) (save : Bool → Bool → Code Outcome), code cfg (.recheckOwners now base)
      = owners >>= fun changed => drainReleases >>= fun drained => save drained changed := by
  refine ⟨do
    let rows ← look Memory.preserved
    enter (.pruneRechecks rows.keys) fun _ => ()
    let order ← request (.rangeOver rows.keys)
    recheckLoop cfg now base rows order false, fun drained changed =>
      (do if drained || changed then saveState cfg) >>= fun _ => return .ok, ?_⟩
  simp only [code, recheckOwners, Prog.bind_assoc]

/-- **A pass of the owner re-check that returns has drained the queue.** -/
theorem CallFrom.drains {now : Time} {base : ℕ} {r : Outcome}
    {y' : Interleave.Config State Memory Section Request Reply Tid Op Outcome}
    (h : CallFrom cfg file tr x .ownerRecheck (.recheckOwners now base) tr' y)
    (hs : Step (machine cfg) y (.finished .ownerRecheck (.recheckOwners now base) r) y') :
    ∃ w x₁ w' b y₁ w'', tr' = w ++ w' ++ w'' ∧
      Drain cfg file (tr ++ .started .ownerRecheck (.recheckOwners now base) :: w) x₁ w' b y₁ ∧
      Run (machine cfg) y₁ w'' y := by
  obtain ⟨x₀, hstart, hrun⟩ := h.begun
  have hwhole := h.whole
  obtain ⟨owners, save, hcode⟩ := @code_recheckOwners cfg now base
  have htask : x₀.tasks .ownerRecheck = some (.recheckOwners now base, owners >>= fun changed =>
      drainReleases >>= fun drained => save drained changed) := by
    rw [← hcode]
    cases hstart with
    | started =>
      change Function.update x.tasks .ownerRecheck _ .ownerRecheck = _
      rw [Function.update_self]
      rfl
  have hend : y.tasks .ownerRecheck = some (.recheckOwners now base, .ret r) := by
    cases hs with
    | finished ht _ => exact ht
  obtain ⟨w₁, w₂, changed, x₁, rfl, hex₁, hrun₁, htask₁⟩ := hrun.executes_of_ret hwhole htask hend
  obtain ⟨w₃, w₄, b, y₁, rfl, hex₂, hrun₂, -⟩ := hrun₁.executes_of_ret
    (fun ev hev => hwhole ev (List.mem_append_right _ hev)) htask₁ hend
  -- the walk begins with the look at the queue
  obtain ⟨s, d, outcomes, hj, -⟩ := hex₂.text text_drainReleases
  obtain ⟨w, w', ev, x₂, rfl, hrun₃, htid, hex₃⟩ := hex₂.from_first (by rw [hj]; nofun)
  refine ⟨w₁ ++ w, x₂, ev :: w', b, y₁, w₄, by simp, ⟨?_, hex₃, ?_⟩, hrun₂⟩
  · have hprefix := Run.append hex₁.run hrun₃
    exact Run.append h.before (Run.append (Run.nil.snoc hstart) hprefix)
  · have hevs := hex₃.run.journal_events hex₃.whole
    obtain ⟨s', d', outcomes', hj', -⟩ := hex₃.text text_drainReleases
    rw [hj', List.filter_cons, if_pos (decide_eq_true htid)] at hevs
    exact congrArg some (List.cons.inj hevs).1.symm

/-- A drain in a schedule. -/
theorem exists_drain (cfg : Config) (file : File) (sched sched' : Schedule)
    (P : State → List Ev → Bool → State → Prop) [∀ s tr b s', Decidable (P s tr b s')]
    (h : (play cfg file sched).any (fun q =>
      (Config.exec (machine cfg) sched' q.2).any fun r =>
      ((machine cfg).track .ownerRecheck drainReleases q.2.shared r.1).any fun p' =>
      p'.result.any fun b => decide ((∀ ev ∈ r.1, ¬ ev.Resets .ownerRecheck) ∧
        r.1.head?.bind readBy = some .ownerRecheck ∧ P q.2.shared r.1 b r.2.shared)) = true) :
    ∃ tr x tr' b y, Drain cfg file tr x tr' b y ∧ P x.shared tr' b y.shared := by
  obtain ⟨tr, x, tr', b, y, hrun, hex, hfirst, hP⟩ :=
    exists_executes cfg file sched .ownerRecheck drainReleases sched'
      (fun s tr b s' => tr.head?.bind readBy = some .ownerRecheck ∧ P s tr b s') h
  obtain ⟨ev, hev, hr⟩ := Option.bind_eq_some_iff.mp hfirst
  rw [readBy_eq_some hr] at hev
  exact ⟨tr, x, tr', b, y, ⟨hrun, hex, hev⟩, hP⟩

/-- A queue of three, and a row that another Pod's `CreatePod` will queue behind them. -/
def queuedFile : StateFile where
  claims := (∅ : Table Key Claim).insert "ns/p" (sampleClaim "s0" (samplePod "p" "uid-1" []))
  releasing := ["s1", "s2", "s3"].map fun id => sampleClaim id (samplePod "q" "uid-0" [])

/-- Three releases of which the second fails, and an adoption that queues a claim in between. -/
theorem drain_keeps_failed_releases_of_mixed_outcomes :
    ∃ tr x tr' b y, Drain bareConfig (.table queuedFile) tr x tr' b y ∧
      x.shared.mem.releasing.map Claim.id = ["s1", "s2", "s3"] ∧
      y.shared.mem.releasing.map Claim.id = ["s2", "s0"] ∧
      ∃ outcomes kept, outcomes.length = x.shared.mem.releasing.length ∧
        (recheckEvents tr').filterMap releaseCall = x.shared.mem.releasing.map Claim.cred ∧
        y.shared.mem.releasing = failedOf x.shared.mem.releasing outcomes ++ kept ∧
        (b = true ↔ .ok () ∈ outcomes) := by
  obtain ⟨tr, x, tr', b, y, hd, hx, hy⟩ := exists_drain bareConfig (.table queuedFile)
    (call .boot .new 10 { file := .decoded queuedFile } ++
      call .ownerRecheck (.recheckOwners (6 * second) 30) 3 {})
    (steps .ownerRecheck 5 {} ++
      call (.lifecycle "ns/p") (.createPod (samplePod "p" "uid-2" [])) 4 {} ++
      steps .ownerRecheck 1 { released := .error "busy" } ++ steps .ownerRecheck 3 {})
    (fun s _ _ s' => s.mem.releasing.map Claim.id = ["s1", "s2", "s3"] ∧
      s'.mem.releasing.map Claim.id = ["s2", "s0"]) (by decide +kernel)
  obtain ⟨outcomes, kept, hlen, hcalls, -, hleft, -, -, hb⟩ :=
    drain_keeps_failed_releases hd (by rw [hx]; decide)
  exact ⟨tr, x, tr', b, y, hd, hx, hy, outcomes, kept, hlen, hcalls, hleft, hb⟩

/-- A sandbox that a hand-made file names both in a row and in the queue. -/
def doubledFile : StateFile where
  claims := (∅ : Table Key Claim).insert "ns/p" (sampleClaim "s1" (samplePod "p" "uid-1" []))
  releasing := [sampleClaim "s1" (samplePod "p" "uid-1" [])]

/-- **An appended entry can be struck off**: the row of a sandbox that is being released is queued
while its Release is under way, and the queue is cleared of the id. -/
theorem appended_entry_struck_off :
    ∃ tr x tr' b y, Drain bareConfig (.table doubledFile) tr x tr' b y ∧
      (x.shared.mem.releasing.map Claim.id).Nodup ∧
      ∀ outcomes, y.shared.mem.releasing
        ≠ failedOf x.shared.mem.releasing outcomes ++ appended bareConfig x.shared tr' := by
  obtain ⟨tr, x, tr', b, y, hd, hx, hy, happ⟩ := exists_drain bareConfig (.table doubledFile)
    (call .boot .new 10 { file := .decoded doubledFile } ++
      call .ownerRecheck (.recheckOwners (6 * second) 30) 3 {})
    (steps .ownerRecheck 2 {} ++
      call (.lifecycle "ns/p") (.createPod (samplePod "p" "uid-2" [])) 4 {} ++
      steps .ownerRecheck 2 {})
    (fun s tr _ s' => (s.mem.releasing.map Claim.id).Nodup ∧ s'.mem.releasing = [] ∧
      appended bareConfig s tr ≠ []) (by decide +kernel)
  refine ⟨tr, x, tr', b, y, hd, hx, fun outcomes he => happ ?_⟩
  rw [hy] at he
  exact (List.append_eq_nil_iff.mp he.symm).2

end VkSandbox
