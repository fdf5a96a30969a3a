import VkSandbox.Provider.Effects
import VkSandbox.Properties.Scenario

/-!
# Properties/Conservation — no credential is lost, none is held twice

A credential sandboxd has issued is in one of three kinds of place:

    row k      under a key of `claims`
    queue n    at a position of `releasing`
    hand k     in the variable of the `CreatePod` that has just received it

`StateFile.Distinct` says that a table names no id twice; it holds of every version of the tables
and of the file (`Distinct`), because a fresh id is in no table and a withdrawn row leaves its key
in the section that queues it.  `Conserved` says that an issued credential is somewhere; a row ends
only by one of five endings, of which two queue it and three know its sandbox finished.
-/

namespace VkSandbox

open Interleave

variable {cfg : Config} {s s' : State} {t : Tid} {a : Section} {k : Key} {c c' : Claim}

/-! ## No id twice -/

/-- A table that names no id twice. -/
structure StateFile.Distinct (st : StateFile) : Prop where
  rows : ∀ {k k' c c'}, st.claims.lookup k = some c → st.claims.lookup k' = some c' →
    c.id = c'.id → k = k'
  queue : (st.releasing.map (·.id)).Nodup
  apart : ∀ {k c c'}, st.claims.lookup k = some c → c' ∈ st.releasing → c.id ≠ c'.id

/-- What is left of a table that named no id twice still names none twice. -/
theorem StateFile.Distinct.mono {st st' : StateFile} (h : st.Distinct)
    (hrow : ∀ k c', st'.claims.lookup k = some c' → ∃ c, st.claims.lookup k = some c ∧ c.id = c'.id)
    (hq : (st'.releasing.map (·.id)).Sublist (st.releasing.map (·.id))) : st'.Distinct where
  rows := fun {k k' c c'} hc hc' he => by
    obtain ⟨c₁, h₁, he₁⟩ := hrow k c hc
    obtain ⟨c₂, h₂, he₂⟩ := hrow k' c' hc'
    exact h.rows h₁ h₂ (by rw [he₁, he₂, he])
  queue := h.queue.sublist hq
  apart := fun {k c c'} hc hc' => by
    obtain ⟨c₁, h₁, he₁⟩ := hrow k c hc
    obtain ⟨c₂, h₂, he₂⟩ := List.mem_map.mp (hq.subset (List.mem_map_of_mem hc'))
    rw [← he₁, ← he₂]
    exact h.apart h₁ h₂

/-- A row that leaves its key may join the queue. -/
theorem StateFile.Distinct.enqueue {st : StateFile} (h : st.Distinct)
    (hc : st.claims.lookup k = some c) (hid : c'.id = c.id) :
    (⟨st.claims.erase k, st.releasing ++ [c']⟩ : StateFile).Distinct where
  rows := fun {k₁ k₂ c₁ c₂} h₁ h₂ he => by
    rw [Table.lookup_erase] at h₁ h₂
    split at h₁
    · cases h₁
    · split at h₂
      · cases h₂
      · exact h.rows h₁ h₂ he
  queue := by
    rw [List.map_append, List.nodup_append]
    refine ⟨h.queue, by simp, ?_⟩
    rintro _ hx _ hy rfl
    obtain ⟨q, hq, he⟩ := List.mem_map.mp hx
    simp only [List.map_cons, List.map_nil, List.mem_singleton] at hy
    exact h.apart hc hq (by rw [he, hy, hid])
  apart := fun {k₁ c₁ c₂} h₁ h₂ => by
    rw [Table.lookup_erase] at h₁
    split at h₁
    · cases h₁
    · next hne =>
      rcases List.mem_append.mp h₂ with h₂ | h₂
      · exact h.apart h₁ h₂
      · obtain rfl := List.mem_singleton.mp h₂
        exact fun he => hne (h.rows h₁ hc (he.trans hid))

theorem StateFile.distinct_empty : (⟨∅, []⟩ : StateFile).Distinct where
  rows := fun h => by simp at h
  queue := List.nodup_nil
  apart := fun h => by simp at h

theorem StateFile.Distinct.marshal {st : StateFile} (h : st.Distinct) : st.marshal.Distinct := by
  refine h.mono (fun k c' hc => ?_) (by simp [StateFile.marshal, Function.comp_def])
  simp only [StateFile.marshal, Table.lookup_pick, Option.bind_eq_some_iff, Option.some.injEq] at hc
  obtain ⟨c, hc, rfl⟩ := hc
  exact ⟨c, hc, rfl⟩

theorem Memory.distinct_snapshot {m : Memory} (h : m.all.Distinct) (committing : Option Key) :
    (m.snapshot committing).Distinct :=
  h.mono (fun _ c' hc => ⟨c', (Memory.lookup_snapshot.mp hc).1, rfl⟩) (List.Sublist.refl _)

/-- A section that only edits and removes rows, and only takes off the queue. -/
theorem Memory.distinct_run {m : Memory} (h : m.all.Distinct)
    (hc : ∀ k c, ¬ a.Creates k c)
    (hq : ((a.run m).releasing.map (·.id)).Sublist (m.releasing.map (·.id))) :
    (a.run m).all.Distinct := by
  refine h.mono (fun k c' hk => ?_) hq
  obtain ⟨c, hc, hsame⟩ | hcr := Section.row_back hk
  · exact ⟨c, hc, hsame.id.symm⟩
  · exact absurd hcr (hc k c')

/-- **No section names an id twice.** -/
theorem SectionGuard.distinct (hi : Inv cfg s) (hg : SectionGuard cfg s t a)
    (h : s.mem.all.Distinct) (hf : s.content.Distinct) : (a.run s.mem).all.Distinct := by
  have hkeep : (∀ k c, ¬ a.Creates k c) → (a.run s.mem).releasing = s.mem.releasing →
      (a.run s.mem).all.Distinct := fun hc hq => Memory.distinct_run h hc (by rw [hq])
  have hrel := Section.releasing_run a s.mem
  cases a with
  | load st now =>
    rw [State.content, hg.2.2.1] at hf
    refine hf.mono (fun k c' hk => ?_) (List.Sublist.refl _)
    obtain ⟨c, at₀, hc, rfl⟩ := Memory.row_load (m := s.mem) hk
    exact ⟨c, hc, rfl⟩
  | insertClaim key pod c =>
    obtain ⟨-, -, -, hnone, res, now, hres, rfl, -⟩ := hg
    have hu : s.Unseen res.id := (hi.hand hres).2.2.2.2
    have hold : ∀ {k c}, s.row k = some c → c.id ≠ res.id := fun hc => hu.ne_row hc
    have hback : ∀ {k c}, (s.mem.insertClaim key pod (.ofResult res pod now)).claims.lookup k =
        some c → (k = key ∧ c.id = res.id) ∨ s.row k = some c := fun hc =>
      (Memory.row_insertClaim.mp hc).imp (fun h => ⟨h.1, by rw [h.2]; rfl⟩) (·.2)
    refine ⟨fun {k₁ k₂ c₁ c₂} h₁ h₂ he => ?_, h.queue, fun {k₁ c₁ c₂} h₁ h₂ => ?_⟩
    · obtain ⟨rfl, e₁⟩ | r₁ := hback h₁ <;> obtain ⟨e, e₂⟩ | r₂ := hback h₂
      · exact e.symm
      · exact absurd (he.symm.trans e₁) (hold r₂)
      · exact absurd (he.trans e₂) (hold r₁)
      · exact h.rows r₁ r₂ he
    · obtain ⟨-, e₁⟩ | r₁ := hback h₁
      · exact e₁ ▸ (hu.2 s.seen_mem (Memory.holds_queued h₂)).symm
      · exact h.apart r₁ h₂
  | adoptExistingClaim key pod =>
    obtain ⟨-, he, -⟩ | ⟨-, he, -⟩ | ⟨c, hc, -, -, he, -⟩ | ⟨c, hc, hs, ha, -, -⟩ :=
      Memory.adoptExistingClaim_cases key pod s.mem
    · rw [Section.run, he]; exact h
    · rw [Section.run, he]; exact h
    · rw [Section.run, he]; exact h.enqueue hc rfl
    · exact hkeep (fun _ _ => id) (by simp [hrel, hc, ha])
  | withdrawForRelease key c₀ =>
    by_cases hw : s.mem.withdrawable key c₀
    · obtain ⟨cur, hcur, hid, -⟩ := Memory.withdrawable_iff.mp hw
      rw [Section.run, Memory.withdrawForRelease, if_pos hw]
      exact h.enqueue hcur hid.symm
    · exact hkeep (fun _ _ => id) (by simp [hrel, hw])
  | dequeue id =>
    exact Memory.distinct_run h (fun _ _ => fun h => h) (List.filter_sublist.map _)
  | _ => exact hkeep (fun _ _ => id) hrel

/-- **At all times**: no version of the tables, and no content of the file, names an id twice. -/
structure Distinct (s : State) : Prop where
  seen : ∀ {m}, s.Seen m → m.all.Distinct
  file : s.content.Distinct

theorem distinct_initial {file : File} (h : file.content.Distinct) :
    Distinct (State.initial file) where
  seen := by
    rintro m ⟨n, hn⟩
    have hm : m ∈ ([{}] : List Memory) := List.mem_of_getElem? hn
    obtain rfl := List.mem_singleton.mp hm
    exact StateFile.distinct_empty
  file := h

theorem Distinct.step {ev : Ev} (hi : Inv cfg s) (h : Distinct s) (hg : Guard cfg ev s)
    (hs : apply ev s = some s') : Distinct s' where
  seen := fun {m} hm => by
    obtain hm | ⟨t, a, rfl, rfl⟩ | ⟨-, rfl⟩ := (effect hs).seen hm
    · exact h.seen hm
    · exact hg.2.distinct hi (h.seen s.seen_mem) h.file
    · exact StateFile.distinct_empty
  file := by
    obtain ⟨hf, -⟩ | ⟨t, u, d, rfl, hd, hf, -⟩ := (effect hs).file
    · rw [State.content, hf]
      exact h.file
    · obtain ⟨-, -, d', hren⟩ := hg.2
      obtain ⟨m, committing, hm, hst, -⟩ := hren.snapshot
      obtain rfl : d' = d := Option.some.inj (hren.tmp.symm.trans hd)
      rw [State.content, hf, File.content, hst]
      exact (Memory.distinct_snapshot (h.seen ⟨_, hm⟩) committing).marshal

theorem Runs.distinct {file : File} {tr : List Ev}
    {x : Interleave.Config State Memory Section Request Reply Tid Op Outcome}
    (h : Runs cfg file tr x) (hf : file.content.Distinct) : Distinct x.shared :=
  h.guarded.invariant (sound cfg) (inv_initial cfg file) (distinct_initial hf)
    fun _ _ _ hi hj hg hs => hj.step hi hg hs

/-! ## None is lost -/

/-- A place that can hold a credential. -/
inductive Place where
  | row (k : Key)
  | queue (n : ℕ)
  | hand (k : Key)
  deriving DecidableEq

/-- What a place holds. -/
def State.credAt (s : State) : Place → Option Credential
  | .row k => (s.row k).map Claim.cred
  | .queue n => s.mem.releasing[n]?.map Claim.cred
  | .hand k => (s.ledger.progress k).inHand.map fun res => ⟨res.id, res.token⟩

theorem State.holds_iff {cr : Credential} : s.mem.all.Holds cr ↔
    (∃ k, s.credAt (.row k) = some cr) ∨ ∃ n, s.credAt (.queue n) = some cr := by
  simp only [credAt, Option.map_eq_some_iff, StateFile.Holds, Memory.all]
  refine or_congr Iff.rfl ⟨?_, ?_⟩
  · rintro ⟨c, hc, rfl⟩
    obtain ⟨n, hn⟩ := List.mem_iff_getElem?.mp hc
    exact ⟨n, c, hn, rfl⟩
  · rintro ⟨n, c, hn, rfl⟩
    exact ⟨c, List.mem_of_getElem? hn, rfl⟩

/-- **Nothing is lost**: an issued credential is in some place, its sandbox is finished, or `New`
has yet to read it. -/
def Conserved (cfg : Config) (s : State) : Prop :=
  ∀ cr ∈ s.ledger.issued, s.Finished cr.id ∨ (∃ p, s.credAt p = some cr) ∨
    s.phase ≠ .up ∧ cfg.statePath ∧ s.content.Holds cr

/-- **Two places never share an id.** -/
theorem Distinct.place (h : Distinct s) (hi : Inv cfg s) {p q : Place} {cr cr' : Credential}
    (hp : s.credAt p = some cr) (hq : s.credAt q = some cr') (he : cr.id = cr'.id) : p = q := by
  have hd := h.seen s.seen_mem
  -- the hand shares its id with neither a row nor the queue
  have hhand : ∀ {k p cr cr'}, s.credAt (.hand k) = some cr → s.credAt p = some cr' →
      cr.id = cr'.id → .hand k = p := by
    intro k p cr cr' hh hp he
    obtain ⟨res, hres, rfl⟩ := Option.map_eq_some_iff.mp hh
    have hu : s.Unseen res.id := (hi.hand hres).2.2.2.2
    cases p with
    | row k' => exact absurd he.symm (hu.2 s.seen_mem (State.holds_iff.mpr (.inl ⟨k', hp⟩)))
    | queue n => exact absurd he.symm (hu.2 s.seen_mem (State.holds_iff.mpr (.inr ⟨n, hp⟩)))
    | hand k' =>
      obtain ⟨res', hres', rfl⟩ := Option.map_eq_some_iff.mp hp
      rw [hi.handInj hres hres' he]
  have hrow : ∀ {k n cr cr'}, s.credAt (.row k) = some cr → s.credAt (.queue n) = some cr' →
      cr.id ≠ cr'.id := by
    intro k n cr cr' hk hn
    obtain ⟨c, hc, rfl⟩ := Option.map_eq_some_iff.mp hk
    obtain ⟨c', hc', rfl⟩ := Option.map_eq_some_iff.mp hn
    exact hd.apart hc (List.mem_of_getElem? hc')
  cases p with
  | hand k => exact hhand hp hq he
  | row k =>
    cases q with
    | hand k' => exact (hhand hq hp he.symm).symm
    | queue n => exact absurd he (hrow hp hq)
    | row k' =>
      obtain ⟨c, hc, rfl⟩ := Option.map_eq_some_iff.mp hp
      obtain ⟨c', hc', rfl⟩ := Option.map_eq_some_iff.mp hq
      rw [hd.rows hc hc' he]
  | queue n =>
    cases q with
    | hand k' => exact (hhand hq hp he.symm).symm
    | row k => exact absurd he.symm (hrow hq hp)
    | queue n' =>
      obtain ⟨c, hc, rfl⟩ := Option.map_eq_some_iff.mp hp
      obtain ⟨c', hc', rfl⟩ := Option.map_eq_some_iff.mp hq
      have hlt : n < s.mem.all.releasing.length := (List.getElem?_eq_some_iff.mp hc).1
      refine congrArg Place.queue ((List.getElem?_inj (by simpa using hlt) hd.queue).mp ?_)
      simp only [List.getElem?_map, Memory.all, hc, hc']
      exact congrArg some he

/-- A credential in a place stays in some place, or is finished, whatever section runs. -/
theorem SectionGuard.conserved (hl : cfg.lister) (hi : Inv cfg s) (hg : SectionGuard cfg s t a)
    {p : Place} {cr : Credential} (hp : s.credAt p = some cr) :
    s.Finished cr.id ∨ ∃ p, (s.entered a).credAt p = some cr := by
  have hall : (a.run s.mem).all.Holds cr → ∃ p, (s.entered a).credAt p = some cr := fun h => by
    obtain ⟨k, hk⟩ | ⟨n, hn⟩ := (State.holds_iff (s := s.entered a)).mp h
    · exact ⟨_, hk⟩
    · exact ⟨_, hn⟩
  cases p with
  | row k =>
    obtain ⟨c, hc, rfl⟩ := Option.map_eq_some_iff.mp hp
    obtain ⟨c', hc', hsame⟩ | ⟨q, hq, he⟩ | hf | ⟨hno, -⟩ := hg.row_outcome hi hc
    · exact .inr ⟨.row k, Option.map_eq_some_iff.mpr ⟨c', hc', hsame.cred⟩⟩
    · exact .inr (hall (.inr ⟨q, hq, he⟩))
    · exact .inl hf
    · rw [hl] at hno
      cases hno
  | queue n =>
    obtain ⟨c, hc, rfl⟩ := Option.map_eq_some_iff.mp hp
    obtain hc' | hf := hg.queue_outcome (List.mem_of_getElem? hc)
    · exact .inr (hall (.inr ⟨c, hc', rfl⟩))
    · exact .inl hf
  | hand k =>
    obtain ⟨res, hres, rfl⟩ := Option.map_eq_some_iff.mp hp
    obtain heq | ⟨-, pod, c, rfl⟩ := Ledger.inHand_progressAfter (a := a) (s := s) (l := s.ledger)
      (k := k)
    · exact .inr ⟨.hand k, Option.map_eq_some_iff.mpr ⟨res, heq.trans hres, rfl⟩⟩
    · obtain ⟨-, -, -, -, res', now, hres', rfl, -⟩ := hg
      obtain rfl : res' = res := Option.some.inj (hres'.symm.trans hres)
      exact .inr ⟨.row k, Option.map_eq_some_iff.mpr
        ⟨_, Memory.row_insertClaim.mpr (.inl ⟨rfl, rfl⟩), rfl⟩⟩

/-- An event that is no section leaves what is in a place there, unless it ends the process. -/
theorem Effect.credAt {ev : Ev} (h : Effect ev s s') (hi : Inv cfg s) (hg : Guard cfg ev s)
    (hm : s'.mem = s.mem) (hlock : ∀ t a, ev ≠ .locked t a) (hend : ¬ EndsProcess ev) {p : Place}
    {cr : Credential} (hp : s.credAt p = some cr) : s'.credAt p = some cr := by
  cases p with
  | row k => rw [← hp, State.credAt, State.credAt, State.row, State.row, hm]
  | queue n => rw [← hp, State.credAt, State.credAt, hm]
  | hand k =>
    obtain ⟨res, hres, rfl⟩ := Option.map_eq_some_iff.mp hp
    obtain he | ⟨op, -, hc, -⟩ | ⟨t, a, rfl, -⟩ | ⟨t, spec, res', rfl, rfl, -⟩ | ⟨rfl, -⟩ :=
      h.progress k
    · rw [State.credAt, he]
      exact hp
    · rw [hi.idle hc] at hres
      cases hres
    · exact absurd rfl (hlock t a)
    · rw [hg.2.2.2.1] at hres
      cases hres
    · exact absurd rfl hend

/-- **No event loses a credential**, short of one that ends the process. -/
theorem Conserved.step {ev : Ev} (hl : cfg.lister) (hend : ¬ EndsProcess ev) (hi : Inv cfg s)
    (h : Conserved cfg s) (hg : Guard cfg ev s) (hs : apply ev s = some s') : Conserved cfg s' := by
  intro cr hcr
  have he := effect hs
  -- what is in a place now, stays in one
  have hplace : ∀ {p}, s.credAt p = some cr → s'.Finished cr.id ∨ ∃ p, s'.credAt p = some cr := by
    intro p hp
    by_cases hlock : ∃ t a, ev = .locked t a
    · obtain ⟨t, a, rfl⟩ := hlock
      cases hs
      exact hg.2.conserved hl hi hp
    · have hlock : ∀ t a, ev ≠ .locked t a := fun t a h => hlock ⟨t, a, h⟩
      obtain ⟨hm, -⟩ | ⟨t, a, he', -⟩ | ⟨he', -⟩ := he.tables
      · exact .inr ⟨p, he.credAt hi hg hm hlock hend hp⟩
      · exact absurd he' (hlock t a)
      · exact absurd he' hend
  -- what `New` has brought back is in a place
  have hback : s.Recovered → s.content.Holds cr →
      s'.Finished cr.id ∨ ∃ p, s'.credAt p = some cr := by
    intro hr hc
    obtain hlack | hm := hr.holds hc
    · exact .inl (he.finished_mono (.inr (hi.missed hlack)))
    · obtain ⟨k, hk⟩ | ⟨n, hn⟩ := State.holds_iff.mp hm
      · exact hplace hk
      · exact hplace hn
  rw [← or_assoc]
  obtain hcr | ⟨t, spec, res, rfl, rfl, -⟩ := he.issued_new hcr
  · obtain hf | ⟨p, hp⟩ | ⟨hph, hsp, hc⟩ := h cr hcr
    · exact .inl (.inl (he.finished_mono hf))
    · exact .inl (hplace hp)
    · obtain ⟨hf, -⟩ | ⟨t, u, d, rfl, hd, hf, -⟩ := he.file
      · have hc' : s'.content.Holds cr := by rw [State.content, hf]; exact hc
        obtain hp' | ⟨-, -, hp'⟩ | ⟨op, rfl, -⟩ | ⟨he', -⟩ := he.phase
        · exact .inr ⟨hp' ▸ hph, hsp, hc'⟩
        · exact .inr ⟨by rw [hp']; decide, hsp, hc'⟩
        · exact .inl (hback (hg.2.2.2.1 hsp).1 hc)
        · exact absurd he' hend
      · -- only `New` writes before the process is up
        obtain ⟨hlive, -, hrec, -⟩ := hg
        by_cases ht : t = .boot
        · exact .inl (hback (hrec ht) hc)
        · exact absurd (hlive.eq_up ht) hph
  · refine .inl (.inr ⟨.hand spec.claimRef, ?_⟩)
    simp only [apply, answer] at hs
    split at hs
    · cases hs
    · cases hs
      simp [State.credAt, State.record]

theorem conserved_initial {file : File} (hf : cfg.statePath = false → file = .absent) :
    Conserved cfg (State.initial file) := by
  intro cr hcr
  refine .inr (.inr ⟨by simp [State.initial], ?_, StateFile.mem_creds.mp hcr⟩)
  cases hsp : cfg.statePath with
  | true => rfl
  | false =>
    obtain rfl := hf hsp
    obtain ⟨k, c, hk, -⟩ | ⟨c, hc, -⟩ := StateFile.mem_creds.mp hcr
    · simp [File.content] at hk
    · cases hc

/-- **No credential is lost or duplicated in a process lifetime.**  In every state of a running
provider, each issued credential whose sandbox is not finished is in exactly one place, and no id is
in two places. -/
theorem credential_conserved {file : File} {tr : List Ev}
    {x : Interleave.Config State Memory Section Request Reply Tid Op Outcome}
    (hl : cfg.lister) (hfile : cfg.statePath = false → file = .absent)
    (hd : file.content.Distinct) (h : Runs cfg file tr x) (hlife : ∀ ev ∈ tr, ¬ EndsProcess ev)
    (hup : x.shared.phase = .up) :
    (∀ cr ∈ x.shared.ledger.issued, ¬ x.shared.Finished cr.id →
      ∃! p, x.shared.credAt p = some cr) ∧
    ∀ p q cr cr', x.shared.credAt p = some cr → x.shared.credAt q = some cr' → cr.id = cr'.id →
      p = q := by
  have hdist := h.distinct hd
  have hheld : Conserved cfg x.shared := h.guarded.invariant_of (sound cfg) (inv_initial cfg file)
    (conserved_initial hfile) (fun _ _ _ hend hi hj hg hs => hj.step hl hend hi hg hs) hlife
  refine ⟨fun cr hcr hf => ?_, fun p q cr cr' hp hq he => hdist.place h.inv hp hq he⟩
  obtain hf' | ⟨p, hp⟩ | ⟨hph, -⟩ := hheld cr hcr
  · exact absurd hf' hf
  · exact ⟨p, hp, fun q hq => hdist.place h.inv hq hp rfl⟩
  · exact absurd hup hph

/-- One Pod is served, and the `CreatePod` of another has just received its sandbox. -/
theorem credential_conserved_of_two_pods : ∃ tr x, Runs fullConfig .absent tr x ∧
    (∃! p, x.shared.credAt p = some ⟨"s1", "token-s1"⟩) ∧
    ∃! p, x.shared.credAt p = some ⟨"s2", "token-s2"⟩ := by
  obtain ⟨tr, x, hrun, hlife, hup, h₁, h₂⟩ := exists_run fullConfig .absent
    (call .boot .new 10 {} ++ call (.lifecycle "ns/p") (.createPod (samplePod "p" "u1" [])) 17
        { claimed := .ok (sampleResult "s1") } ++
      call (.lifecycle "ns/q") (.createPod (samplePod "q" "u2" [])) 6
        { claimed := .ok (sampleResult "s2") })
    (fun tr s => (∀ ev ∈ tr, ¬ EndsProcess ev) ∧ s.phase = .up ∧
      (⟨"s1", "token-s1"⟩ ∈ s.ledger.issued ∧ "s1" ∉ s.ledger.released ∧ "s1" ∉ s.ledger.lacked) ∧
      ⟨"s2", "token-s2"⟩ ∈ s.ledger.issued ∧ "s2" ∉ s.ledger.released ∧ "s2" ∉ s.ledger.lacked)
    (by decide +kernel)
  have h := credential_conserved rfl (fun _ => rfl) StateFile.distinct_empty hrun hlife hup
  exact ⟨tr, x, hrun, h.1 _ h₁.1 (not_or.mpr h₁.2), h.1 _ h₂.1 (not_or.mpr h₂.2)⟩

end VkSandbox
