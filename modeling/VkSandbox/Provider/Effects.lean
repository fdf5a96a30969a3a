import VkSandbox.Provider.Soundness

/-!
# Provider/Effects — what each event changes

`Effect ev s s'` goes through the state part by part and says which events touch it, and how.  An
invariant of a run is then a question about the few events that touch the parts it mentions; none
of the proofs that follow goes through the events one by one.
-/

namespace VkSandbox

open Interleave

/-- The events that end the process: a crash, and a `New` that fails. -/
def EndsProcess : Ev → Bool
  | .crashed => true
  | .finished .boot _ .ok => false
  | .finished .boot _ _ => true
  | _ => false

/-- Short of a crash, it is the end of a `New`. -/
theorem booting_of_ends {cfg : Config} {ev : Ev} {s : State} (h : EndsProcess ev)
    (hg : Guard cfg ev s) (hc : ev ≠ .crashed) : s.phase = .booting := by
  cases ev with
  | crashed => exact absurd rfl hc
  | finished t op r =>
    cases t with
    | boot => exact hg.1
    | _ => cases h
  | _ => cases h

/-- The process dies. -/
def isCrash : Ev → Bool
  | .crashed => true
  | _ => false

theorem isCrash_eq_true {ev : Ev} (h : isCrash ev = true) : ev = .crashed := by
  cases ev with
  | crashed => rfl
  | _ => cases h

/-- The Pod of a Running notification. -/
def notifiedRunning : Ev → Option Pod
  | .asked _ (.notify pod) _ => if pod.status.phase = .running then some pod else none
  | _ => none

theorem notifiedRunning_eq_some {ev : Ev} {pod : Pod} (h : notifiedRunning ev = some pod) :
    ∃ t, ev = .asked t (.notify pod) () ∧ pod.status.phase = .running := by
  cases ev with
  | asked t e r =>
    cases e with
    | notify pod' =>
      simp only [notifiedRunning] at h
      split at h
      · next hp => cases h; exact ⟨t, rfl, hp⟩
      · cases h
    | _ => cases h
  | _ => cases h

/-- The Release an event sends: by which thread, of which credential. -/
def sentRelease : Ev → Option (Tid × Credential)
  | .asked t (.sendRelease id token) _ => some (t, ⟨id, token⟩)
  | _ => none

theorem sentRelease_eq_some {ev : Ev} {t : Tid} {cr : Credential}
    (h : sentRelease ev = some (t, cr)) : ev = .asked t (.sendRelease cr.id cr.token) () := by
  cases ev with
  | asked t' e r =>
    cases e with
    | sendRelease id token => cases h; rfl
    | _ => cases h
  | _ => cases h

/-- **What an event changes**, part by part. -/
structure Effect (ev : Ev) (s s' : State) : Prop where
  tables : s'.mem = s.mem ∧ s'.past = s.past ∨
    (∃ t a, ev = .locked t a ∧ s'.mem = a.run s.mem ∧ s'.past = s.mem :: s.past) ∨
    EndsProcess ev ∧ s'.mem = {} ∧ s'.past = s.mem :: s.past ∧ s'.phase = .down
  phase : s'.phase = s.phase ∨
    (ev = .started .boot .new ∧ s.phase = .down ∧ s'.phase = .booting) ∨
    (∃ op, ev = .finished .boot op .ok ∧ s'.phase = .up) ∨ EndsProcess ev ∧ s'.phase = .down
  file : s'.disk.file = s.disk.file ∧ s'.disk.instant = s.disk.instant ∧
      s'.disk.writer = s.disk.writer ∨
    ∃ t u d, ev = .asked t .rename (.ok u) ∧ s.disk.tmp = some d ∧ s'.disk.file = .table d.st ∧
      s'.disk.instant = some d.instant ∧ s'.disk.writer = some d.writer
  progress : ∀ k, s'.ledger.progress k = s.ledger.progress k ∨
    (∃ op, ev = .started (.lifecycle k) op ∧ s.ledger.calls (.lifecycle k) = none ∧
      s'.ledger.progress k = { touched := (s.ledger.progress k).touched }) ∨
    (∃ t a, ev = .locked t a ∧ s'.ledger.progress k = s.ledger.progressAfter a s k) ∨
    (∃ t spec res, ev = .asked t (.claim spec) (.ok res) ∧ spec.claimRef = k ∧
      s'.ledger.progress k = { s.ledger.progress k with inHand := some res }) ∨
    ev = .crashed ∧ s'.ledger.progress k = { touched := (s.ledger.progress k).touched }
  calls : ∀ t, s'.ledger.calls t = s.ledger.calls t ∨
    (∃ op, ev = .started t op ∧ s.ledger.calls t = none ∧
      s'.ledger.calls t = some (s.ledger.count, op) ∧ s.ledger.count < s'.ledger.count) ∨
    s'.ledger.calls t = none ∧ ((∃ op r, ev = .finished t op r) ∨ ev = .crashed)
  count : s.ledger.count ≤ s'.ledger.count
  readAt : ∀ t, s'.ledger.readAt t = s.ledger.readAt t ∨
    s'.ledger.readAt t = s.instant ∧ ((∃ op, ev = .started t op) ∨ ev = .read t)
  issued : s.ledger.issued ⊆ s'.ledger.issued
  issued_new : ∀ {cr}, cr ∈ s'.ledger.issued → cr ∈ s.ledger.issued ∨
    ∃ t spec res, ev = .asked t (.claim spec) (.ok res) ∧ cr = ⟨res.id, res.token⟩ ∧
      res.id ∉ s.ledger.issuedIds
  claimedFor : s.ledger.claimedFor ⊆ s'.ledger.claimedFor
  claimedFor_new : ∀ {e}, e ∈ s'.ledger.claimedFor → e ∈ s.ledger.claimedFor ∨
    ∃ t spec res, ev = .asked t (.claim spec) (.ok res) ∧ e = (res.id, spec.claimRef) ∧
      res.id ∉ s.ledger.issuedIds
  bindings : s'.ledger.bindings = s.ledger.bindings ∨
    ∃ t a, ev = .locked t a ∧ s'.ledger.bindings = s.ledger.bindingsAfter a s
  deletes : s'.ledger.deletes = s.ledger.deletes ∨
    ∃ t pod, ev = .started t (.deletePod pod) ∧ s'.ledger.deletes = pod :: s.ledger.deletes
  returned : s.ledger.returned ⊆ s'.ledger.returned
  returned_new : ∀ {n}, n ∈ s'.ledger.returned → n ∈ s.ledger.returned ∨
    ∃ t op op', ev = .finished t op .ok ∧ s.ledger.calls t = some (n, op')
  sent : s.ledger.sent ⊆ s'.ledger.sent
  sent_new : ∀ {id}, id ∈ s'.ledger.sent → id ∈ s.ledger.sent ∨
    ∃ t token, ev = .asked t (.sendRelease id token) ()
  released : s.ledger.released ⊆ s'.ledger.released
  lacked : s.ledger.lacked ⊆ s'.ledger.lacked
  undone : s.ledger.undone ⊆ s'.ledger.undone
  undone_new : ∀ {id}, id ∈ s'.ledger.undone → id ∈ s.ledger.undone ∨
    ∃ k token c, ev = .asked (.lifecycle k) (.sendRelease id token) () ∧ k ∈ s.mem.tentative ∧
      s.row k = some c ∧ c.id = id
  filed : s.ledger.filed ⊆ s'.ledger.filed
  filed_new : ∀ {id}, id ∈ s'.ledger.filed → id ∈ s.ledger.filed ∨
    ∃ t u d, ev = .asked t .rename (.ok u) ∧ s.disk.tmp = some d ∧ id ∈ d.st.ids
  saveMu : s'.saveMu = s.saveMu ∧ s'.ledger.savingSince = s.ledger.savingSince ∨
    (∃ t, ev = .asked t .lockSave () ∧ s.saveMu = none ∧ s'.saveMu = some t ∧
      s'.ledger.savingSince = s.instant) ∨
    (∃ t, ev = .asked t .unlockSave () ∧ s.saveMu = some t ∧ s'.saveMu = none) ∨ ev = .crashed
  running : s.ledger.running ⊆ s'.ledger.running
  running_new : ∀ {e}, e ∈ s'.ledger.running → e ∈ s.ledger.running ∨
    ∃ t pod, ev = .asked t (.notify pod) () ∧ runningEntry pod = some e
  reads_new : ∀ {e}, e ∈ s'.ledger.reads → e ∈ s.ledger.reads ∨
    ∃ t key gvr ns name read, ev = .asked t (.getOwner key gvr ns name) read ∧ e = (key, name, read)
  writeFailed : s.ledger.writeFailed = true → s'.ledger.writeFailed = true
  loaded : s'.ledger.loaded = s.ledger.loaded ∨ ev = .started .boot .new ∨
    ∃ t r, ev = .asked t .readFile r
  missed_new : ∀ {id}, id ∈ s'.ledger.missed → id ∈ s.ledger.missed ∨
    ∃ t listed, ev = .asked t .sandboxes (.ok listed) ∧ id ∉ listedIds listed
  vouched_new : ∀ {id}, id ∈ s'.ledger.vouched → id ∈ s.ledger.vouched ∨
    ∃ t listed, ev = .asked t .sandboxes (.ok listed) ∧ id ∈ listedIds listed
  listFailed_new : s'.ledger.listFailed = true → s.ledger.listFailed = true ∨
    ∃ t err, ev = .asked t .sandboxes (.error err)
  born : s'.ledger.born = s.ledger.born ∨ ev = .started .boot .new ∧ s'.ledger.born = s.instant

namespace Effect

variable {ev : Ev} {s s' : State}

theorem refl (ev : Ev) (s : State) : Effect ev s s where
  tables := .inl ⟨rfl, rfl⟩
  phase := .inl rfl
  file := .inl ⟨rfl, rfl, rfl⟩
  progress := fun _ => .inl rfl
  calls := fun _ => .inl rfl
  count := le_rfl
  readAt := fun _ => .inl rfl
  claimedFor := Finset.Subset.refl _
  claimedFor_new := .inl
  bindings := .inl rfl
  deletes := .inl rfl
  returned := Finset.Subset.refl _
  returned_new := .inl
  issued := Finset.Subset.refl _
  issued_new := .inl
  sent := Finset.Subset.refl _
  sent_new := .inl
  released := Finset.Subset.refl _
  lacked := Finset.Subset.refl _
  undone := Finset.Subset.refl _
  undone_new := .inl
  filed := Finset.Subset.refl _
  filed_new := .inl
  saveMu := .inl ⟨rfl, rfl⟩
  running := Finset.Subset.refl _
  running_new := .inl
  reads_new := .inl
  writeFailed := id
  loaded := .inl rfl
  missed_new := .inl
  vouched_new := .inl
  listFailed_new := .inl
  born := .inl rfl

theorem started {t : Tid} {op : Op} (h : apply (.started t op) s = some s') :
    Effect (.started t op) s s' := by
  have hcalls : ∀ u, s.ledger.calls t = none →
      Function.update s.ledger.calls t (some (s.ledger.count, op)) u = s.ledger.calls u ∨
      (∃ op', (.started t op : Ev) = .started u op' ∧ s.ledger.calls u = none ∧
        Function.update s.ledger.calls t (some (s.ledger.count, op)) u
          = some (s.ledger.count, op') ∧ s.ledger.count < s.ledger.count + 1) := fun u hc => by
    by_cases hu : u = t
    · subst hu
      exact .inr ⟨op, rfl, hc, Function.update_self _ _ _, Nat.lt_succ_self _⟩
    · exact .inl (Function.update_of_ne hu _ _)
  have hread : ∀ u, Function.update s.ledger.readAt t s.instant u = s.ledger.readAt u ∨
      Function.update s.ledger.readAt t s.instant u = s.instant ∧
        ((∃ op', (.started t op : Ev) = .started u op') ∨ (.started t op : Ev) = .read u) :=
        fun u => by
    by_cases hu : u = t
    · subst hu
      exact .inr ⟨Function.update_self _ _ _, .inl ⟨op, rfl⟩⟩
    · exact .inl (Function.update_of_ne hu _ _)
  obtain ⟨rfl, rfl, hp, hc, rfl⟩ | ⟨hb, hp, hm, hc, rfl⟩ := apply_started h
  · exact { refl _ s with
      tables := .inl ⟨rfl, rfl⟩
      phase := .inr (.inl ⟨rfl, hp, rfl⟩)
      calls := fun u => (hcalls u hc).imp_right .inl
      count := Nat.le_succ _
      readAt := hread
      loaded := .inr (.inl rfl)
      missed_new := fun h => absurd h (Finset.notMem_empty _)
      vouched_new := fun h => absurd h (Finset.notMem_empty _)
      listFailed_new := fun h => by cases h
      born := .inr ⟨rfl, rfl⟩ }
  · refine { refl _ s with
      progress := fun k => ?_
      calls := fun u => (hcalls u hc).imp_right .inl
      count := Nat.le_succ _
      readAt := hread
      deletes := ?_ }
    · cases t with
      | lifecycle key =>
        by_cases hk : k = key
        · subst hk
          exact .inr (.inl ⟨op, rfl, hc, Function.update_self _ _ _⟩)
        · exact .inl (Function.update_of_ne hk _ _)
      | _ => exact .inl rfl
    · cases op with
      | deletePod pod => exact .inr ⟨t, pod, rfl, rfl⟩
      | _ => exact .inl rfl

theorem asked {t : Tid} {e : Request} {r : Reply e} (h : answer t e r s = some s') :
    Effect (.asked t e r) s s' := by
  have hrefl := refl (.asked t e r) s
  cases e with
  | now =>
    obtain ⟨rfl, -⟩ := answer_now h
    exact hrefl
  | sendClaim spec => cases h; exact hrefl
  | rangeOver keys =>
    simp only [answer] at h
    split at h
    · cases h; exact hrefl
    · cases h
  | claim spec =>
    cases r with
    | error err => cases h; exact hrefl
    | ok res =>
      simp only [answer] at h
      split at h
      · cases h
      · next hnew =>
        cases h
        refine { hrefl with
          progress := fun k => ?_
          issued := Finset.subset_insert _ _
          issued_new := fun hcr => ?_
          claimedFor := Finset.subset_insert _ _
          claimedFor_new := fun he => ?_ }
        · by_cases hk : k = spec.claimRef
          · subst hk
            exact .inr (.inr (.inr (.inl ⟨t, spec, res, rfl, rfl, Function.update_self _ _ _⟩)))
          · exact .inl (Function.update_of_ne hk _ _)
        · rcases Finset.mem_insert.mp hcr with rfl | hcr
          · exact .inr ⟨t, spec, res, rfl, rfl, hnew⟩
          · exact .inl hcr
        · rcases Finset.mem_insert.mp he with rfl | he
          · exact .inr ⟨t, spec, res, rfl, rfl, hnew⟩
          · exact .inl he
  | sendRelease id token =>
    cases h
    refine { hrefl with
      sent := Finset.subset_insert _ _, sent_new := fun hid => ?_, undone := fun id hid => ?_
      undone_new := fun hid => ?_ }
    · rcases Finset.mem_insert.mp hid with rfl | hid
      · exact .inr ⟨t, token, rfl⟩
      · exact .inl hid
    · simp only [State.record]
      split
      · split
        · exact Finset.mem_insert_of_mem hid
        · exact hid
      · exact hid
    · simp only [State.record] at hid
      split at hid
      · next k =>
        split at hid
        · next hk =>
          rcases Finset.mem_insert.mp hid with rfl | hid
          · obtain ⟨c, hc, he⟩ := (Option.any_eq_true _ _).mp hk.2
            exact .inr ⟨k, token, c, rfl, hk.1, hc, of_decide_eq_true he⟩
          · exact .inl hid
        · exact .inl hid
      · exact .inl hid
  | release id token =>
    cases r with
    | error err => cases h; exact hrefl
    | ok u => cases h; exact { hrefl with released := Finset.subset_insert _ _ }
  | sendList => cases h; exact { hrefl with }
  | sandboxes =>
    cases r with
    | error err => cases h; exact { hrefl with listFailed_new := fun _ => .inr ⟨t, err, rfl⟩ }
    | ok listed =>
      cases h
      refine { hrefl with
        lacked := Finset.subset_union_left
        missed_new := fun {id} hid => ?_
        vouched_new := fun hid => (Finset.mem_union.mp hid).imp_right fun hid =>
          ⟨t, listed, rfl, List.mem_toFinset.mp hid⟩ }
      rcases Finset.mem_union.mp hid with hid | hid
      · exact .inl hid
      · exact .inr ⟨t, listed, rfl, (Finset.mem_filter.mp hid).2⟩
  | getOwner key gvr ns name =>
    cases h
    refine { hrefl with reads_new := fun he => ?_ }
    rcases List.mem_cons.mp he with rfl | he
    · exact .inr ⟨t, key, gvr, ns, name, r, rfl, rfl⟩
    · exact .inl he
  | notify pod =>
    cases h
    refine { hrefl with running := fun e he => ?_, running_new := fun {e} he => ?_ }
    · simp only [State.record]
      split
      · exact Finset.mem_insert_of_mem he
      · exact he
    · simp only [State.record] at he
      split at he
      · next e' hr =>
        rcases Finset.mem_insert.mp he with rfl | he
        · exact .inr ⟨t, pod, rfl, hr⟩
        · exact .inl he
      · exact .inl he
  | lockSave =>
    simp only [answer] at h
    split at h
    · next hm => cases h; exact { hrefl with saveMu := .inr (.inl ⟨t, rfl, hm, rfl, rfl⟩) }
    · cases h
  | unlockSave =>
    simp only [answer] at h
    split at h
    · next hm => cases h; exact { hrefl with saveMu := .inr (.inr (.inl ⟨t, rfl, hm, rfl⟩)) }
    · cases h
  | mkdirAll | writeFile st =>
    cases r <;> cases h
    · exact { hrefl with writeFailed := fun _ => rfl }
    · exact { hrefl with }
  | rename =>
    cases r with
    | error err => cases h; exact { hrefl with writeFailed := fun _ => rfl }
    | ok u =>
      obtain ⟨d, hd, rfl⟩ := answer_rename h
      exact { hrefl with
        file := .inr ⟨t, u, d, rfl, hd, rfl, rfl, rfl⟩
        filed := Finset.subset_union_left
        filed_new := fun hid => (Finset.mem_union.mp hid).imp_right fun hid =>
          ⟨t, u, d, rfl, hd, hid⟩ }
  | readFile =>
    cases r with
    | failed err => cases h; exact hrefl
    | absent | undecodable err | decoded st =>
      simp only [answer] at h
      split at h
      · cases h; exact { hrefl with loaded := .inr (.inr ⟨t, _, rfl⟩) }
      · cases h

/-- What the end of a call leaves in the ledger. -/
theorem finish (t : Tid) (op : Op) (r : Outcome) :
    Effect (.finished t op r) s (s.record (·.finish t op r)) := by
  have hnew : ∀ {n}, n ∈ (s.ledger.finish t op r).returned → n ∈ s.ledger.returned ∨
      ∃ u op₁ op₂, (.finished t op r : Ev) = .finished u op₁ .ok ∧
        s.ledger.calls u = some (n, op₂) := by
    intro n hn
    simp only [Ledger.finish] at hn
    split at hn
    case h_4 => exact .inl hn
    all_goals
      next hc =>
      rcases Finset.mem_insert.mp hn with rfl | hn
      · exact .inr ⟨t, _, _, rfl, hc⟩
      · exact .inl hn
  refine { refl _ s with calls := fun u => ?_, returned := fun n hn => ?_, returned_new := hnew }
  · by_cases hu : u = t
    · subst hu
      exact .inr (.inr ⟨Function.update_self _ _ _, .inl ⟨op, r, rfl⟩⟩)
    · exact .inl (Function.update_of_ne hu _ _)
  · simp only [State.record, Ledger.finish]
    split <;> first | exact Finset.mem_insert_of_mem hn | exact hn

theorem finished {t : Tid} {op : Op} {r : Outcome} (h : apply (.finished t op r) s = some s') :
    Effect (.finished t op r) s s' := by
  have hfin := finish (s := s) t op r
  cases t with
  | boot =>
    cases r with
    | ok =>
      cases h
      exact { hfin with tables := .inl ⟨rfl, rfl⟩, phase := .inr (.inr (.inl ⟨op, rfl, rfl⟩)) }
    | _ =>
      cases h
      exact { hfin with
        tables := .inr (.inr ⟨rfl, rfl, rfl, rfl⟩), phase := .inr (.inr (.inr ⟨rfl, rfl⟩)) }
  | _ => cases h; exact hfin

end Effect

/-- **Every event has its effect and no other.** -/
theorem effect {ev : Ev} {s s' : State} (h : apply ev s = some s') : Effect ev s s' := by
  cases ev with
  | started t op => exact .started h
  | read t =>
    cases h
    refine { Effect.refl _ s with readAt := fun u => ?_ }
    by_cases hu : u = t
    · subst hu
      exact .inr ⟨Function.update_self _ _ _, .inr rfl⟩
    · exact .inl (Function.update_of_ne hu _ _)
  | locked t a =>
    cases h
    exact { Effect.refl _ s with
      tables := .inr (.inl ⟨t, a, rfl, rfl, rfl⟩)
      progress := fun k => .inr (.inr (.inl ⟨t, a, rfl, rfl⟩))
      bindings := .inr ⟨t, a, rfl, rfl⟩ }
  | asked t e r => exact .asked h
  | finished t op r => exact .finished h
  | crashed =>
    simp only [apply] at h
    split at h
    · cases h
    · cases h
      exact { Effect.refl _ s with
        tables := .inr (.inr ⟨rfl, rfl, rfl, rfl⟩)
        phase := .inr (.inr (.inr ⟨rfl, rfl⟩))
        progress := fun k => .inr (.inr (.inr (.inr ⟨rfl, rfl⟩)))
        saveMu := .inr (.inr (.inr rfl))
        calls := fun t => .inr (.inr ⟨rfl, .inr rfl⟩) }

namespace Effect

variable {ev : Ev} {s s' : State}

/-- A version of the tables is an old one, or the one this event made. -/
theorem memAt_cases (h : Effect ev s s') {n : ℕ} {m : Memory} (hm : s'.memAt n = some m) :
    s.memAt n = some m ∨ n = s.instant + 1 ∧ m = s'.mem := by
  have hset : s'.past = s.mem :: s.past → s.memAt n = some m ∨ n = s.instant + 1 ∧ m = s'.mem := by
    intro hp
    have hm' : (s.setMem s'.mem).memAt n = some m := by
      rw [← hm, State.memAt, State.memAt, hp]
      rfl
    exact State.memAt_setMem_cases hm'
  obtain ⟨hm', hp⟩ | ⟨t, a, -, -, hp⟩ | ⟨-, -, hp, -⟩ := h.tables
  · exact .inl (by rw [← hm, State.memAt, State.memAt, hm', hp])
  · exact hset hp
  · exact hset hp

/-- Where a version of the tables comes from. -/
theorem memAt_back (h : Effect ev s s') {n : ℕ} {m : Memory} (hm : s'.memAt n = some m) :
    s.memAt n = some m ∨ (∃ t a, ev = .locked t a ∧ m = a.run s.mem) ∨ EndsProcess ev ∧ m = {} := by
  obtain hm' | ⟨rfl, rfl⟩ := h.memAt_cases hm
  · exact .inl hm'
  · obtain ⟨hm', hp⟩ | ⟨t, a, he, hm', -⟩ | ⟨he, hm', -, -⟩ := h.tables
    · have hle := State.memAt_le hm
      rw [State.instant, State.instant, hp] at hle
      omega
    · exact .inr (.inl ⟨t, a, he, hm'⟩)
    · exact .inr (.inr ⟨he, hm'⟩)

theorem seen (h : Effect ev s s') {m : Memory} (hm : s'.Seen m) :
    s.Seen m ∨ (∃ t a, ev = .locked t a ∧ m = a.run s.mem) ∨ EndsProcess ev ∧ m = {} := by
  obtain ⟨n, hn⟩ := hm
  exact (h.memAt_back hn).imp_left fun hm => ⟨n, hm⟩

/-- The past stays. -/
theorem memAt (h : Effect ev s s') {n : ℕ} {m : Memory} (hm : s.memAt n = some m) :
    s'.memAt n = some m := by
  have hset : s'.past = s.mem :: s.past → s'.memAt n = some m := by
    intro hp
    have hold : (s.setMem s'.mem).memAt n = some m := State.memAt_setMem hm
    rw [← hold, State.memAt, State.memAt, hp]
    rfl
  obtain ⟨hm', hp⟩ | ⟨t, a, -, -, hp⟩ | ⟨-, -, hp, -⟩ := h.tables
  · rw [← hm, State.memAt, State.memAt, hm', hp]
  · exact hset hp
  · exact hset hp

theorem instant_le (h : Effect ev s s') : s.instant ≤ s'.instant := by
  obtain ⟨-, hp⟩ | ⟨t, a, -, -, hp⟩ | ⟨-, -, hp, -⟩ :=
    h.tables <;> rw [State.instant, State.instant, hp]
  · exact Nat.le_succ _
  · exact Nat.le_succ _

/-- The instant of the content never decreases. -/
theorem diskInstant_le {cfg : Config} (he : Effect ev s s') (hg : Guard cfg ev s) {n : ℕ}
    (hn : s.disk.instant = some n) : ∃ n', s'.disk.instant = some n' ∧ n ≤ n' := by
  obtain ⟨-, hi, -⟩ | ⟨t, u, d, rfl, hd, -, hi, -⟩ := he.file
  · exact ⟨n, hi.trans hn, le_rfl⟩
  · obtain ⟨-, -, d', hren⟩ := hg.2
    obtain rfl : d' = d := Option.some.inj (hren.tmp.symm.trans hd)
    exact ⟨d'.instant, hi, hren.later n hn⟩

end Effect

/-- What a call has in hand it had before, or sandboxd has just issued it. -/
theorem inHand_back {ev : Ev} {s s' : State} {k : Key} {res : ClaimResult}
    (hs : apply ev s = some s') (h : (s'.ledger.progress k).inHand = some res) :
    (s.ledger.progress k).inHand = some res ∨
      res.id ∉ s.ledger.issuedIds ∧ (res.id, k) ∈ s'.ledger.claimedFor := by
  obtain hp | ⟨op, -, -, hp⟩ | ⟨t, a, -, hp⟩ | ⟨t, spec, res', rfl, rfl, hp⟩ | ⟨-, hp⟩ :=
    (effect hs).progress k <;> rw [hp] at h
  · exact .inl h
  · cases h
  · obtain ha | ⟨ha, -⟩ := Ledger.inHand_progressAfter (a := a) (s := s) (l := s.ledger) (k := k)
    · exact .inl (ha ▸ h)
    · rw [ha] at h
      cases h
  · cases h
    simp only [apply, answer] at hs
    split at hs
    · cases hs
    · next hnew =>
      cases hs
      exact .inr ⟨hnew, Finset.mem_insert_self _ _⟩
  · cases h

/-! ## Where a credential goes -/

/-- Its sandbox is finished: a `Release` of it has returned nil, or a listing has lacked it. -/
def State.Finished (s : State) (id : String) : Prop :=
  id ∈ s.ledger.released ∨ id ∈ s.ledger.lacked

theorem Effect.finished_mono {ev : Ev} {s s' : State} (h : Effect ev s s') {id : String}
    (hf : s.Finished id) : s'.Finished id :=
  hf.imp (fun h' => h.released h') (fun h' => h.lacked h')

namespace SectionGuard

variable {cfg : Config} {s : State} {t : Tid} {a : Section} {k : Key} {c : Claim}

/-- **Where a row goes**: it stays, it is queued, or its sandbox is finished; without a lister an
expired one is dropped on the word of its deadline. -/
theorem row_outcome (hi : Inv cfg s) (hg : SectionGuard cfg s t a) (h : s.row k = some c) :
    (∃ c', (a.run s.mem).claims.lookup k = some c' ∧ c.Same c') ∨
      (∃ q ∈ (a.run s.mem).releasing, q.cred = c.cred) ∨ s.Finished c.id ∨
      cfg.lister = false ∧ a = .dropClaim k c.id := by
  obtain h' | hend := hg.forward h
  · exact .inl h'
  refine .inr ?_
  cases hend with
  | unlisted _ _ _ hlack => exact .inr (.inl (.inr (hi.missed hlack)))
  | withdrawn _ _ hrel => exact .inr (.inl (.inl hrel))
  | dropped ha _ _ hlack =>
    cases hl : cfg.lister with
    | true => exact .inr (.inl (.inr (hi.missed (hlack hl))))
    | false => exact .inr (.inr ⟨rfl, ha⟩)
  | @superseded pod ha _ hs had =>
    subst ha
    refine .inl ⟨c, ?_, rfl⟩
    simp only [State.row] at h
    simp [Section.releasing_run, h, hs, had]
  | @rechecked c₀ ha _ hsame _ hpod _ _ =>
    subst ha
    have hw : s.mem.withdrawable k c₀ := Memory.withdrawable_iff.mpr ⟨c, h, hsame.id, hpod⟩
    exact .inl ⟨c₀, by simp [Section.releasing_run, hw], hsame.cred.symm⟩

/-- A queued claim stays queued until its sandbox is finished. -/
theorem queue_outcome (hg : SectionGuard cfg s t a) (h : c ∈ s.mem.releasing) :
    c ∈ (a.run s.mem).releasing ∨ s.Finished c.id := by
  obtain h' | ⟨st, now, rfl⟩ | rfl := Section.releasing_forward (a := a) h
  · exact .inl h'
  · rw [hg.2.1] at h
    cases h
  · exact .inr (.inl hg.2)

end SectionGuard

end VkSandbox
