import VkSandbox.Properties.Bindings
import VkSandbox.Properties.Scenario

/-!
# Properties/Generations — which Pod a request is for

The stale-UID guard compares the UID of a request with that of the tracked Pod, and lets everything
pass when none is tracked.  What it does not look at is the UID the claim records.  The two agree
(`Matched`) as long as every request that finds no Pod tracked names the Pod its claim records, and
then a delete acts on the claim of its own Pod only:

    tracked Pod p  ──  row c      p.uid = c.podUID
    no Pod         ──  row c      c.podUID = pod.uid, for the request in progress
-/

namespace VkSandbox

open Interleave

variable {cfg : Config} {s s' : State} {t : Tid} {k : Key} {c c' : Claim} {pod p : Pod} {ev : Ev}
  {a : Section}

/-! ## Requests about a Pod that may be there already -/

/-- The key and the Pod of an `UpdatePod` or `DeletePod` that begins. -/
def revisited : Ev → Option (Key × Pod)
  | .started (.lifecycle k) (.updatePod pod) | .started (.lifecycle k) (.deletePod pod) =>
    some (k, pod)
  | _ => none

/-- An `UpdatePod` or `DeletePod` of `pod` is in progress at `k`. -/
def State.Revisits (s : State) (k : Key) (pod : Pod) : Prop :=
  s.Updates (.lifecycle k) pod ∨ s.Deletes (.lifecycle k) pod

instance : Decidable (s.Deletes t pod) :=
  decidable_of_iff ((s.ledger.calls t).map (·.2) = some (.deletePod pod)) (by
    simp [State.Deletes, Option.map_eq_some_iff])

instance : Decidable (s.Updates t pod) :=
  decidable_of_iff ((s.ledger.calls t).map (·.2) = some (.updatePod pod)) (by
    simp [State.Updates, Option.map_eq_some_iff])

/-- **A request at `k` that finds no Pod tracked names the Pod its claim records.** -/
def NamesHolder (k : Key) (ev : Ev) (s : State) : Prop :=
  ∀ e ∈ revisited ev, e.1 = k → s.mem.pods.lookup k = none → ∀ c ∈ s.row k, c.podUID = e.2.uid

instance (k : Key) (ev : Ev) (s : State) : Decidable (NamesHolder k ev s) :=
  inferInstanceAs (Decidable (∀ e ∈ revisited ev, e.1 = k → _ → ∀ c ∈ s.row k, _))

/-- The tables a thread saw when it last looked. -/
def State.lastLook (s : State) (t : Tid) : Option Memory := s.memAt (s.ledger.readAt t)

theorem State.Revisits.unique {pod' : Pod} (h : s.Revisits k pod) (h' : s.Revisits k pod') :
    pod = pod' := by
  rcases h with ⟨n, hn⟩ | ⟨n, hn⟩ <;> rcases h' with ⟨n', hn'⟩ | ⟨n', hn'⟩ <;> rw [hn] at hn' <;>
    cases hn'
  · rfl
  · rfl

/-- A delete in progress was in progress before, or begins now. -/
theorem Effect.deletes_back (he : Effect ev s s') (h : s'.Deletes t pod) :
    s.Deletes t pod ∨ ev = .started t (.deletePod pod) := by
  obtain ⟨n, hn⟩ := h
  obtain hc | ⟨op, rfl, -, hc, -⟩ | ⟨hc, -⟩ := he.calls t <;> rw [hc] at hn
  · exact .inl ⟨n, hn⟩
  · cases hn
    exact .inr rfl
  · cases hn

/-- So was an update. -/
theorem Effect.updates_back (he : Effect ev s s') (h : s'.Updates t pod) :
    s.Updates t pod ∨ ev = .started t (.updatePod pod) := by
  obtain ⟨n, hn⟩ := h
  obtain hc | ⟨op, rfl, -, hc, -⟩ | ⟨hc, -⟩ := he.calls t <;> rw [hc] at hn
  · exact .inl ⟨n, hn⟩
  · cases hn
    exact .inr rfl
  · cases hn

theorem Effect.revisits_back (he : Effect ev s s') (h : s'.Revisits k pod) :
    s.Revisits k pod ∨ revisited ev = some (k, pod) := by
  rcases h with h | h
  · obtain h | rfl := he.updates_back h
    · exact .inl (.inl h)
    · exact .inr rfl
  · obtain h | rfl := he.deletes_back h
    · exact .inl (.inr h)
    · exact .inr rfl

/-- A call begins with a look at the tables as they are. -/
theorem lastLook_started {op : Op} (hs : apply (.started t op) s = some s') :
    s'.lastLook t = some s.mem := by
  have hr : s'.ledger.readAt t = s.instant := by
    obtain ⟨rfl, rfl, -, -, rfl⟩ | ⟨-, -, -, -, rfl⟩ := apply_started hs
    · exact Function.update_self Tid.boot s.instant s.ledger.readAt
    · exact Function.update_self t s.instant s.ledger.readAt
  rw [State.lastLook, hr]
  exact (effect hs).memAt s.memAt_instant

/-! ## The tracked Pod is the one the claim records -/

/-- **The Pod tracked at `k` is the one its claim records**, and a request that finds none is for
that one too. -/
structure Matched (k : Key) (s : State) : Prop where
  tracked : ∀ {p c}, s.mem.pods.lookup k = some p → s.row k = some c → c.podUID = p.uid
  untracked : ∀ {pod c}, s.Revisits k pod → s.mem.pods.lookup k = none → s.row k = some c →
    c.podUID = pod.uid

theorem State.Revisits.isSome (h : s.Revisits k pod) : (s.ledger.calls (.lifecycle k)).isSome := by
  rcases h with ⟨n, hn⟩ | ⟨n, hn⟩ <;> rw [hn] <;> rfl

/-- A request the guard lets pass is for the Pod the claim records. -/
theorem Matched.current (h : Matched k s) (hr : s.Revisits k pod) (hp : s.mem.podUIDIsCurrent k pod)
    (hc : s.row k = some c) : c.podUID = pod.uid := by
  cases hk : s.mem.pods.lookup k with
  | none => exact h.untracked hr hk hc
  | some p =>
    rw [h.tracked hk hc]
    simpa [Memory.podUIDIsCurrent, hk] using hp

/-- Outside an adoption, an edit keeps the UID. -/
theorem Section.Edits.podUID {m : Memory} (h : a.Edits m k c c')
    (ha : ∀ pod, a ≠ .adoptExistingClaim k pod) : c'.podUID = c.podUID := by
  cases h with
  | deadline d => rfl
  | rebind he => exact absurd he (ha _)
  | preserve he => rfl

theorem Matched.tracked_locked (h : Matched k s) (hg : SectionGuard cfg s t a)
    (hp : (a.run s.mem).pods.lookup k = some p) (hc : (a.run s.mem).claims.lookup k = some c') :
    c'.podUID = p.uid := by
  by_cases ha : ∃ pod, a = .adoptExistingClaim k pod
  · obtain ⟨pod, rfl⟩ := ha
    simp only [Section.run] at hp hc
    obtain ⟨-, he, -⟩ | ⟨-, he, -⟩ | ⟨c, -, -, -, he, -⟩ | ⟨c, -, -, -, he, -⟩ :=
      Memory.adoptExistingClaim_cases k pod s.mem <;> rw [he] at hp hc
    · exact h.tracked hp hc
    · exact h.tracked hp hc
    · rw [Finmap.lookup_erase] at hc
      cases hc
    · rw [Finmap.lookup_insert] at hp hc
      cases hp
      cases hc
      rfl
  · have ha : ∀ pod, a ≠ .adoptExistingClaim k pod := fun pod he => ha ⟨pod, he⟩
    obtain ⟨c, hc₀, hedit⟩ | hcr := Section.row_edit hc
    · rw [hedit.podUID ha]
      obtain hold | he | rfl | ⟨pod, c₁, rfl, -⟩ := Section.pods_back hp
      · exact h.tracked hold hc₀
      · exact absurd he (ha _)
      · obtain ⟨rfl, -, hup, hcur, -⟩ := hg
        exact h.current (.inl hup) hcur hc₀
      · have hn : s.row k = none := hg.2.2.2.1
        rw [State.row, hc₀] at hn
        cases hn
    · cases a with
      | load st now =>
        have hp' : s.mem.pods.lookup k = some p := hp
        rw [hg.2.1] at hp'
        simp at hp'
      | insertClaim key pod c =>
        obtain ⟨rfl, rfl⟩ := hcr
        obtain ⟨-, -, -, -, res, now, -, rfl, -⟩ := hg
        simp only [Section.run, Memory.insertClaim, Finmap.lookup_insert, Option.some.injEq] at hp
        rw [← hp]
        rfl
      | _ => exact hcr.elim

theorem Matched.untracked_locked (h : Matched k s) (hi : Inv cfg s) (hlive : s.Live t)
    (hg : SectionGuard cfg s t a) (hr : s.Revisits k pod)
    (hp : (a.run s.mem).pods.lookup k = none) (hc : (a.run s.mem).claims.lookup k = some c') :
    c'.podUID = pod.uid := by
  have ha : ∀ pod', a = .adoptExistingClaim k pod' → (a.run s.mem).claims.lookup k = s.row k := by
    rintro pod' rfl
    simp only [Section.run] at hp hc ⊢
    obtain ⟨-, he, -⟩ | ⟨-, he, -⟩ | ⟨c, -, -, -, he, -⟩ | ⟨c, -, -, -, he, -⟩ :=
      Memory.adoptExistingClaim_cases k pod' s.mem <;> rw [he] at hp hc ⊢
    · rfl
    · rfl
    · rw [Finmap.lookup_erase] at hc
      cases hc
    · rw [Finmap.lookup_insert] at hp
      cases hp
  obtain ⟨c, hc₀, hedit⟩ | hcr := Section.row_edit hc
  · have huid : c'.podUID = c.podUID := by
      by_cases hado : ∃ pod', a = .adoptExistingClaim k pod'
      · obtain ⟨pod', he⟩ := hado
        have hsame := ha pod' he
        rw [hc, State.row, hc₀] at hsame
        cases hsame
        rfl
      · exact hedit.podUID fun pod' he => hado ⟨pod', he⟩
    rw [huid]
    cases hk : s.mem.pods.lookup k with
    | none => exact h.untracked hr hk hc₀
    | some p =>
      obtain ⟨p', hp'⟩ | ⟨id, rfl⟩ | rfl | ⟨id, owner, rfl⟩ := Section.pods_gone (a := a) hk
      · rw [hp'] at hp
        cases hp
      · obtain ⟨hc₁, hne⟩ := Memory.row_withdrawClaim.mp hc
        exact absurd (hg.2.2.1 c' hc₁) (hne rfl)
      · have hn : s.row k = none := hg.2
        rw [State.row, hc₀] at hn
        cases hn
      · obtain ⟨rfl, pod', hdel, -, -, -, hcur, -⟩ := hg
        obtain rfl := hr.unique (.inr hdel)
        exact h.current hr hcur hc₀
  · cases a with
    | load st now =>
      obtain ⟨rfl, -⟩ := hg
      have hup : s.phase = .up := hi.up hr.isSome
      rw [show s.phase = .booting from hlive] at hup
      cases hup
    | insertClaim key pod' c =>
      obtain ⟨rfl, rfl⟩ := hcr
      simp [Section.run, Memory.insertClaim] at hp
    | _ => exact hcr.elim

theorem Matched.step (h : Matched k s) (hi : Inv cfg s) (hg : Guard cfg ev s)
    (hs : apply ev s = some s') (hC : NamesHolder k ev s) : Matched k s' where
  tracked := fun {p c} hp hc => by
    obtain ⟨hm, -⟩ | ⟨t, a, rfl, hm, -⟩ | ⟨-, hm, -⟩ := (effect hs).tables <;> rw [hm] at hp <;>
      rw [State.row, hm] at hc
    · exact h.tracked hp hc
    · exact h.tracked_locked hg.2 hp hc
    · simp at hc
  untracked := fun {pod c} hr hp hc => by
    obtain ⟨hm, -⟩ | ⟨t, a, rfl, hm, -⟩ | ⟨-, hm, -⟩ := (effect hs).tables <;> rw [hm] at hp <;>
      rw [State.row, hm] at hc
    · obtain hr | hnew := (effect hs).revisits_back hr
      · exact h.untracked hr hp hc
      · exact hC _ hnew rfl hp c hc
    · obtain hr | hnew := (effect hs).revisits_back hr
      · exact h.untracked_locked hi hg.1 hg.2 hr hp hc
      · cases hnew
    · simp at hc

theorem matched_initial (k : Key) (file : File) : Matched k (State.initial file) where
  tracked := fun _ hc => by simp [State.row, State.initial] at hc
  untracked := fun _ _ hc => by simp [State.row, State.initial] at hc

/-- **What a delete at `k` found when it last looked**, if the guard let it pass, records its own
Pod. -/
def Found (k : Key) (s : State) : Prop :=
  ∀ ⦃pod m c⦄, s.Deletes (.lifecycle k) pod → s.lastLook (.lifecycle k) = some m →
    m.podUIDIsCurrent k pod → m.claims.lookup k = some c → c.podUID = pod.uid

theorem Found.step (h : Found k s) (hm : Matched k s) (hm' : Matched k s')
    (hs : apply ev s = some s') : Found k s' := by
  intro pod m c hd hlook hcur hc
  have he := effect hs
  obtain hold | rfl := he.deletes_back hd
  · obtain hr | ⟨hr, -⟩ := he.readAt (.lifecycle k) <;> rw [State.lastLook, hr] at hlook
    · obtain hlook | ⟨-, rfl⟩ := he.memAt_cases hlook
      · exact h hold hlook hcur hc
      · exact hm'.current (.inr hd) hcur hc
    · obtain rfl : s.mem = m := Option.some.inj ((he.memAt s.memAt_instant).symm.trans hlook)
      exact hm.current (.inr hold) hcur hc
  · -- the call begins, and has seen nothing but the tables it begins with
    obtain rfl : s.mem = m := Option.some.inj ((lastLook_started hs).symm.trans hlook)
    obtain ⟨hmem, -⟩ | ⟨t, a, hev, -⟩ | ⟨hend, -⟩ := he.tables
    · exact hm'.current (.inr hd) (by rw [hmem]; exact hcur) (by rw [State.row, hmem]; exact hc)
    · cases hev
    · cases hend

/-! ## A delete acts on the claim of its own Pod -/

/-- The sections of a delete leave the rows alone, or come after the guard let it pass. -/
theorem SectionGuard.of_delete (hg : SectionGuard cfg s (.lifecycle k) a)
    (hd : s.Deletes (.lifecycle k) pod) :
    (a.run s.mem).claims = s.mem.claims ∨ s.mem.podUIDIsCurrent k pod := by
  have hcreating : ¬ s.Creating (.lifecycle k) := fun h => by
    obtain ⟨pod', hserves⟩ := h k rfl
    exact hserves.not_deletes pod hd
  cases a with
  | load st now | quarantineLoadedClaims => cases hg.1
  | settle before live | refreshDeadline key id d => exact absurd hg.1 hcreating
  | dropClaim key id => exact absurd hg.2.2.2.1 hcreating
  | adoptExistingClaim key pod' => exact absurd hd (hg.2.2.1.not_deletes pod)
  | insertClaim key pod' c => exact absurd hd (hg.2.2.1.not_deletes pod)
  | updatePod key pod' =>
    obtain ⟨-, -, ⟨n, hn⟩, -⟩ := hg
    exact absurd hd (State.Serves.not_deletes ⟨n, .inr hn⟩ pod)
  | withdrawClaim key id =>
    obtain ⟨hk, -, -, -, hcur⟩ := hg
    cases hk
    exact .inr (hcur pod hd)
  | preserveClaim key id owner =>
    obtain ⟨hk, pod', hd', -, -, -, hcur, -⟩ := hg
    cases hk
    obtain rfl := hd.unique hd'
    exact .inr hcur
  | withdrawForRelease key c => cases hg.1
  | setRecheck key r => cases r <;> exact .inl rfl
  | _ => exact .inl rfl

section Deletes

variable {file : File} {tr : List Ev}
  {x x' : Interleave.Config State Memory Section Request Reply Tid Op Outcome}

theorem Runs.matched (h : Runs cfg file tr x)
    (hC : (machine cfg).Along (NamesHolder k) (State.initial file) tr) :
    Matched k x.shared ∧ Found k x.shared := by
  refine h.guarded.invariant_along (sound cfg) (inv_initial cfg file)
    (J := fun s => Matched k s ∧ Found k s) ⟨matched_initial k file, ?_⟩ ?_ hC
  · rintro pod m c ⟨n, hn⟩
    cases hn
  · intro ev s s' hC hi hj hg hs
    have hm' := hj.1.step hi hg hs hC
    exact ⟨hm', hj.2.step hj.1 hm' hs⟩

/-- **A delete acts on the claim of the Pod the guard saw.**  In every run, a Release that a
`DeletePod` sends is for the claim it found at its key when the key tracked its own Pod or none, and
only then does the delete change the row of its key.  If moreover every `UpdatePod` and `DeletePod`
of that key that found no Pod tracked named the Pod its claim records, the claim is that of the Pod
deleted. -/
theorem delete_acts_on_current_generation (h : Runs cfg file tr x)
    (hd : x.shared.Deletes (.lifecycle k) pod) (hstep : Step (machine cfg) x ev x')
    (hev : ev.tid = some (.lifecycle k)) :
    (∀ cr, sentRelease ev = some (.lifecycle k, cr) →
      ∃ m c, x.shared.lastLook (.lifecycle k) = some m ∧ m.claims.lookup k = some c ∧ c.cred = cr ∧
        m.podUIDIsCurrent k pod ∧
        ((machine cfg).Along (NamesHolder k) (State.initial file) tr → c.podUID = pod.uid)) ∧
    (x'.shared.row k ≠ x.shared.row k → x.shared.mem.podUIDIsCurrent k pod ∧
      ((machine cfg).Along (NamesHolder k) (State.initial file) tr →
        ∀ c, x.shared.row k = some c → c.podUID = pod.uid)) := by
  obtain ⟨hg, hs⟩ := h.next hstep
  constructor
  · intro cr hcr
    obtain rfl := sentRelease_eq_some hcr
    obtain ⟨-, hcause, -⟩ := hg
    generalize hcr' : (⟨cr.id, cr.token⟩ : Credential) = cr' at hcause
    cases hcause with
    | undo hserves => exact absurd hd (hserves.not_deletes pod)
    | delete hd' _ hm hcur hc _ =>
      obtain rfl := hd.unique hd'
      exact ⟨_, _, hm, hc, hcr'.symm, hcur, fun hC => (h.matched hC).2 hd hm hcur hc⟩
  · intro hne
    have hcur : x.shared.mem.podUIDIsCurrent k pod := by
      obtain ⟨hm, -⟩ | ⟨t, a, rfl, hm, -⟩ | ⟨hend, -⟩ := (effect hs).tables
      · exact absurd (by rw [State.row, State.row, hm]) hne
      · cases hev
        refine (hg.2.of_delete hd).resolve_left fun he => hne ?_
        rw [State.row, State.row, hm, he]
      · cases ev with
        | crashed => cases hev
        | finished t op r => cases hev; cases hend
        | _ => cases hend
    exact ⟨hcur, fun hC c hc => (h.matched hC).1.current (.inr hd) hcur hc⟩

/-- A bare Pod is deleted under its own UID: the claim released is its own. -/
theorem delete_acts_on_current_generation_of_bare_pod : ∃ tr x ev x',
    Runs fullConfig .absent tr x ∧ Step (machine fullConfig) x ev x' ∧
    sentRelease ev = some (.lifecycle "ns/p", ⟨"s1", "token-s1"⟩) ∧
    ∃ m c, x.shared.lastLook (.lifecycle "ns/p") = some m ∧ m.claims.lookup "ns/p" = some c ∧
      c.cred = ⟨"s1", "token-s1"⟩ ∧ c.podUID = "u1" := by
  obtain ⟨tr, x, ev, x', hrun, hstep, hC, hd, hev⟩ := exists_step fullConfig .absent
    (call .boot .new 10 {} ++
      call (.lifecycle "ns/p") (.createPod (samplePod "p" "u1" [])) 17
        { claimed := .ok (sampleResult "s1") } ++
      call (.lifecycle "ns/p") (.deletePod (samplePod "p" "u1" [])) 2 {})
    (.move (.lifecycle "ns/p") (World.reply {}))
    (fun tr s ev =>
      (machine fullConfig).Along (NamesHolder "ns/p") (State.initial .absent) tr ∧
      s.Deletes (.lifecycle "ns/p") (samplePod "p" "u1" []) ∧
      sentRelease ev = some (.lifecycle "ns/p", ⟨"s1", "token-s1"⟩))
    (by decide +kernel)
  obtain ⟨m, c, hm, hc, hcred, -, huid⟩ := (delete_acts_on_current_generation hrun hd hstep
    (by rw [sentRelease_eq_some hev]; rfl)).1 _ hev
  exact ⟨tr, x, ev, x', hrun, hstep, hev, m, c, hm, hc, hcred, huid hC⟩

/-- After a restart no Pod is tracked: a delete for another generation passes the guard, and sends a
Release for the claim of the Pod that is there. -/
theorem delete_of_another_generation_releases : ∃ tr x ev x',
    Runs fullConfig .absent tr x ∧ Step (machine fullConfig) x ev x' ∧
    x.shared.Deletes (.lifecycle "ns/p") (samplePod "p" "u0" []) ∧
    sentRelease ev = some (.lifecycle "ns/p", ⟨"s1", "token-s1"⟩) ∧
    (x.shared.row "ns/p").map (fun c => (c.cred, c.podUID)) = some (⟨"s1", "token-s1"⟩, "u1") := by
  exact exists_step fullConfig .absent
    (call .boot .new 10 {} ++
      call (.lifecycle "ns/p") (.createPod (samplePod "p" "u1" [])) 17
        { claimed := .ok (sampleResult "s1") } ++
      .crash :: call .boot .new 15
        { file := .decoded (sampleFile "ns/p" (sampleClaim "s1" (samplePod "p" "u1" [])))
          listed := .ok [sampleSummary "s1"] } ++
      call (.lifecycle "ns/p") (.deletePod (samplePod "p" "u0" [])) 2 {})
    (.move (.lifecycle "ns/p") (World.reply {}))
    (fun _ s ev =>
      s.Deletes (.lifecycle "ns/p") (samplePod "p" "u0" []) ∧
      sentRelease ev = some (.lifecycle "ns/p", ⟨"s1", "token-s1"⟩) ∧
      (s.row "ns/p").map (fun c => (c.cred, c.podUID)) = some (⟨"s1", "token-s1"⟩, "u1"))
    (by decide +kernel)

end Deletes

/-! ## Which generations the guard drops -/

/-- Some Pod of this UID has been bound to a sandbox at `k`. -/
def State.Known (s : State) (k : Key) (uid : String) : Prop :=
  ∃ b ∈ s.ledger.bindings, b.key = k ∧ b.pod.uid = uid

/-- The key and the Pod of an `UpdatePod` that begins. -/
def updated : Ev → Option (Key × Pod)
  | .started (.lifecycle k) (.updatePod pod) => some (k, pod)
  | _ => none

/-- **A generation is introduced by its create**: a request for one that has never been bound at its
key finds no Pod tracked there, and an `UpdatePod` finds a tentative claim. -/
def Introduced (ev : Ev) (s : State) : Prop :=
  (∀ e ∈ revisited ev, s.Known e.1 e.2.uid ∨ s.mem.pods.lookup e.1 = none) ∧
  ∀ e ∈ updated ev, s.Known e.1 e.2.uid ∨ e.1 ∈ s.mem.tentative

instance (k : Key) (uid : String) : Decidable (s.Known k uid) :=
  inferInstanceAs (Decidable (∃ b ∈ s.ledger.bindings, _ ∧ _))

instance (ev : Ev) (s : State) : Decidable (Introduced ev s) :=
  inferInstanceAs (Decidable ((∀ e ∈ revisited ev, _) ∧ ∀ e ∈ updated ev, _))

theorem Effect.known (he : Effect ev s s') {uid : String} (h : s.Known k uid) : s'.Known k uid := by
  obtain ⟨b, hb, h⟩ := h
  exact ⟨b, he.bindings_mono hb, h⟩

/-- **Every generation the provider has to do with was introduced.** -/
structure Traced (s : State) : Prop where
  tracked : ∀ {k p}, s.mem.pods.lookup k = some p → s.Known k p.uid
  dropped : ∀ {k pod}, s.Revisits k pod → s.mem.podUIDIsCurrent k pod = false → s.Known k pod.uid
  fresh : ∀ {k n pod}, s.ledger.calls (.lifecycle k) = some (n, .updatePod pod) →
    (∃ b ∈ s.ledger.bindings, b.key = k ∧ b.pod.uid = pod.uid ∧ b.call ≠ n) ∨
    s.mem.podUIDIsCurrent k pod ∧ ((s.ledger.progress k).declined = true ∨ k ∈ s.mem.tentative)

theorem State.Revisits.serves {pod' : Pod} (h : s.Revisits k pod)
    (h' : s.Serves (.lifecycle k) pod') : pod' = pod := by
  rcases h with ⟨n, hn⟩ | hd
  · obtain ⟨n', hn' | hn'⟩ := h' <;> rw [hn] at hn' <;> cases hn'
    rfl
  · exact absurd hd (h'.not_deletes pod)

/-- A request that the guard would let pass goes on passing: only its own Pod can come to be tracked
meanwhile. -/
theorem SectionGuard.stays_current (hg : SectionGuard cfg s t a) (hr : s.Revisits k pod)
    (hcur : s.mem.podUIDIsCurrent k pod) : (a.run s.mem).podUIDIsCurrent k pod := by
  have hmine : ∀ p, s.Serves (.lifecycle k) p → p.uid = pod.uid := fun p hp => by rw [hr.serves hp]
  cases hp : (a.run s.mem).pods.lookup k with
  | none => simp [Memory.podUIDIsCurrent, hp]
  | some p =>
    have huid : p.uid = pod.uid := by
      obtain hold | rfl | rfl | ⟨pod', c, rfl, rfl⟩ := Section.pods_back hp
      · simpa [Memory.podUIDIsCurrent, hold] using hcur
      · obtain ⟨rfl, -, hserves, -⟩ := hg
        exact hmine p hserves
      · obtain ⟨rfl, -, ⟨n, hn⟩, -⟩ := hg
        exact hmine p ⟨n, .inr hn⟩
      · obtain ⟨rfl, -, hserves, -⟩ := hg
        exact hmine pod' hserves
    simpa [Memory.podUIDIsCurrent, hp] using huid

theorem Traced.tracked_locked (h : Traced s) (hg : Guard cfg (.locked t a) s)
    (hp : (a.run s.mem).pods.lookup k = some p) : (s.entered a).Known k p.uid := by
  have hmono : ∀ {uid}, s.Known k uid → (s.entered a).Known k uid := fun hk =>
    (effect (show apply (.locked t a) s = some (s.entered a) from rfl)).known hk
  obtain hold | rfl | rfl | ⟨pod', c, rfl, rfl⟩ := Section.pods_back hp
  · exact hmono (h.tracked hold)
  · -- an adoption that tracks its Pod has bound it
    simp only [Section.run] at hp
    obtain ⟨-, he, -⟩ | ⟨-, he, -⟩ | ⟨c, -, -, -, he, -⟩ | ⟨c, -, -, -, he, hado⟩ :=
      Memory.adoptExistingClaim_cases k p s.mem
    · rw [he] at hp
      exact hmono (h.tracked hp)
    · rw [he] at hp
      exact hmono (h.tracked hp)
    · rw [he] at hp
      exact hmono (h.tracked hp)
    · obtain ⟨n, hb⟩ := State.binding_adopted hado
      exact ⟨_, hb, rfl, rfl⟩
  · obtain ⟨-, rfl, -, ⟨n, hn⟩, -, hdec⟩ := hg
    obtain ⟨b, hb, hkey, huid, -⟩ | ⟨-, hd | ht⟩ := h.fresh hn
    · exact hmono ⟨b, hb, hkey, huid⟩
    · rw [hdec] at hd
      cases hd
    · rw [Section.run, Memory.updatePod, if_pos ht] at hp
      exact hmono (h.tracked hp)
  · exact ⟨⟨k, c.id, pod', _, s.instant + 1⟩, List.mem_cons_self, rfl, rfl⟩

/-- An update for a new generation has found nothing to adopt, or its claim is tentative still. -/
theorem SectionGuard.stays_fresh {n : ℕ} (hg : SectionGuard cfg s t a)
    (hc : s.ledger.calls (.lifecycle k) = some (n, .updatePod pod))
    (h : (s.ledger.progress k).declined = true ∨ k ∈ s.mem.tentative) :
    (s.ledger.progressAfter a s k).declined = true ∨ k ∈ (a.run s.mem).tentative := by
  rcases h with h | h
  · exact .inl (Ledger.declined_progressAfter h)
  · obtain ht | ⟨id, rfl⟩ | rfl := Section.tentative_forward (a := a) h
    · exact .inr ht
    · obtain ⟨rfl, -, -, hserves, -⟩ := hg
      exact .inl (Ledger.declined_progressAfter (hserves pod ⟨n, .inr hc⟩).2)
    · obtain ⟨rfl, -, -, c, -, -, -, hdec⟩ := hg
      exact .inl (Ledger.declined_progressAfter hdec)

/-- A request in progress keeps its progress but for what a section does. -/
theorem Effect.declined_eq {n : ℕ} {op : Op} (he : Effect ev s s')
    (hc : s.ledger.calls (.lifecycle k) = some (n, op))
    (hl : ∀ t a, ev ≠ .locked t a) (hcr : ev ≠ .crashed) :
    (s'.ledger.progress k).declined = (s.ledger.progress k).declined := by
  obtain hp | ⟨op', -, hnone, -⟩ | ⟨t, a, rfl, -⟩ | ⟨t, spec, res, -, -, hp⟩ | ⟨rfl, -⟩ :=
    he.progress k
  · rw [hp]
  · rw [hc] at hnone
    cases hnone
  · exact absurd rfl (hl t a)
  · rw [hp]
  · exact absurd rfl hcr

theorem Traced.fresh_step (h : Traced s) (hi : Inv cfg s) (hg : Guard cfg ev s)
    (hs : apply ev s = some s') {n : ℕ}
    (hold : s.ledger.calls (.lifecycle k) = some (n, .updatePod pod))
    (hnew : s'.ledger.calls (.lifecycle k) = some (n, .updatePod pod)) :
    (∃ b ∈ s'.ledger.bindings, b.key = k ∧ b.pod.uid = pod.uid ∧ b.call ≠ n) ∨
    s'.mem.podUIDIsCurrent k pod ∧
      ((s'.ledger.progress k).declined = true ∨ k ∈ s'.mem.tentative) := by
  obtain ⟨b, hb, hrest⟩ | ⟨hcur, hf⟩ := h.fresh hold
  · exact .inl ⟨b, (effect hs).bindings_mono hb, hrest⟩
  · refine .inr ?_
    have hcrash : ev ≠ .crashed := by
      rintro rfl
      rw [calls_crashed hs] at hnew
      cases hnew
    by_cases hl : ∃ t a, ev = .locked t a
    · obtain ⟨t, a, rfl⟩ := hl
      cases hs
      exact ⟨hg.2.stays_current (.inl ⟨n, hold⟩) hcur, hg.2.stays_fresh hold hf⟩
    · have hl : ∀ t a, ev ≠ .locked t a := fun t a he => hl ⟨t, a, he⟩
      rw [(effect hs).declined_eq hold hl hcrash]
      obtain ⟨hm, -⟩ | ⟨t, a, rfl, -⟩ | ⟨hend, -, -, -⟩ := (effect hs).tables
      · rw [hm]
        exact ⟨hcur, hf⟩
      · exact absurd rfl (hl t a)
      · have hup : s.phase = .up := hi.up (by rw [hold]; rfl)
        rw [booting_of_ends hend hg hcrash] at hup
        cases hup

theorem Traced.step (h : Traced s) (hn : Numbered s) (hi : Inv cfg s) (hg : Guard cfg ev s)
    (hs : apply ev s = some s') (hC : Introduced ev s) : Traced s' where
  tracked := fun {k p} hp => by
    obtain ⟨hm, -⟩ | ⟨t, a, rfl, hm, -⟩ | ⟨-, hm, -⟩ := (effect hs).tables <;> rw [hm] at hp
    · exact (effect hs).known (h.tracked hp)
    · cases hs
      exact h.tracked_locked hg hp
    · simp at hp
  dropped := fun {k pod} hr hcur => by
    obtain ⟨hm, -⟩ | ⟨t, a, rfl, hm, -⟩ | ⟨-, hm, -⟩ := (effect hs).tables <;> rw [hm] at hcur
    · obtain hr | hnew := (effect hs).revisits_back hr
      · exact (effect hs).known (h.dropped hr hcur)
      · obtain hk | hnone := hC.1 _ hnew
        · exact (effect hs).known hk
        · simp [Memory.podUIDIsCurrent, hnone] at hcur
    · obtain hr | hnew := (effect hs).revisits_back hr
      · refine (effect hs).known (h.dropped hr ?_)
        by_contra hne
        rw [hg.2.stays_current hr (by simpa using hne)] at hcur
        cases hcur
      · cases hnew
    · simp [Memory.podUIDIsCurrent] at hcur
  fresh := fun {k n pod} hc => by
    obtain hold | ⟨rfl, rfl, -⟩ := (effect hs).calls_back hc
    · exact h.fresh_step hi hg hs hold hc
    · -- a new call: its generation is known from an earlier one, or the claim is tentative
      have hknown : s.Known k pod.uid → ∃ b ∈ s'.ledger.bindings, b.key = k ∧
          b.pod.uid = pod.uid ∧ b.call ≠ s.ledger.count := by
        rintro ⟨b, hb, hkey, huid⟩
        exact ⟨b, (effect hs).bindings_mono hb, hkey, huid, (hn.bindings hb).1.ne⟩
      obtain ⟨hm, -⟩ | ⟨t, a, hev, -⟩ | ⟨hend, -⟩ := (effect hs).tables
      · obtain hk | ht := hC.2 _ rfl
        · exact .inl (hknown hk)
        · obtain hk | hnone := hC.1 _ rfl
          · exact .inl (hknown hk)
          · rw [hm]
            exact .inr ⟨by simp [Memory.podUIDIsCurrent, hnone], .inr ht⟩
      · cases hev
      · cases hend

theorem traced_initial (file : File) : Traced (State.initial file) where
  tracked := fun hp => by simp [State.initial] at hp
  dropped := fun hr => by
    rcases hr with ⟨n, hn⟩ | ⟨n, hn⟩ <;> cases hn
  fresh := fun hc => by cases hc

section Guard

variable {file : File} {tr : List Ev}
  {x x' : Interleave.Config State Memory Section Request Reply Tid Op Outcome}

theorem Runs.traced (h : Runs cfg file tr x)
    (hC : (machine cfg).Along Introduced (State.initial file) tr) : Traced x.shared :=
  (h.guarded.invariant_along (sound cfg) (inv_initial cfg file)
    (J := fun s => Numbered s ∧ Traced s) ⟨numbered_initial file, traced_initial file⟩
    (fun _ _ _ hC hi hj hg hs => ⟨hj.1.step hg hs, hj.2.step hj.1 hi hg hs hC⟩) hC).2

/-- **The stale-UID guard drops old generations only**, if every generation is introduced by its
create.  A request it drops is for a Pod that was tracked at that key before the one tracked now;
and an `UpdatePod` for a generation no earlier call has bound, when it returns nil, has its Pod
tracked and bound to a sandbox. -/
theorem stale_guard_drops_old_generations (h : Runs cfg file tr x)
    (hC : (machine cfg).Along Introduced (State.initial file) tr) :
    (∀ k pod, x.shared.Revisits k pod → x.shared.mem.podUIDIsCurrent k pod = false →
      ∃ i m p, i < x.shared.instant ∧ x.shared.memAt i = some m ∧ m.pods.lookup k = some p ∧
        p.uid = pod.uid) ∧
    ∀ k pod n x', Step (machine cfg) x (.finished (.lifecycle k) (.updatePod pod) .ok) x' →
      x.shared.ledger.calls (.lifecycle k) = some (n, .updatePod pod) →
      (∀ b ∈ x.shared.ledger.bindings, b.key = k → b.pod.uid = pod.uid → b.call = n) →
      ∃ id, (x.shared.ledger.progress k).bound = some id ∧
        (∃ p, x.shared.mem.pods.lookup k = some p ∧ p.uid = pod.uid) ∧
        ((∃ c, x.shared.row k = some c ∧ c.id = id ∧ c.BoundTo pod) ∨
          id ∈ x.shared.ledger.lacked) := by
  have htr := h.traced hC
  constructor
  · intro k pod hr hcur
    obtain ⟨b, hb, rfl, huid⟩ := htr.dropped hr hcur
    obtain ⟨m, hm, ⟨p, hp, hpu⟩, -⟩ := h.numbered.shown hb
    refine ⟨b.instant, m, p, lt_of_le_of_ne (State.memAt_le hm) fun heq => ?_, hm, hp,
      hpu.trans huid⟩
    -- the present version tracks another generation
    rw [heq, State.memAt_instant] at hm
    obtain rfl := Option.some.inj hm
    simp [Memory.podUIDIsCurrent, hp, hpu, huid] at hcur
  · intro k pod n x' hstep hc hnew
    obtain ⟨⟨hlive, -, -, -, -, -, hupd⟩, -⟩ := h.next hstep
    obtain ⟨b, hb, hkey, huid, hne⟩ | ⟨hcur, hf⟩ := htr.fresh hc
    · exact absurd (hnew b hb hkey huid) hne
    · obtain hno | ⟨-, ht, hd, -⟩ | ⟨id, hcreated⟩ := hupd
      · rw [hcur] at hno
        cases hno
      · rcases hf with hf | hf
        · rw [hd] at hf
          cases hf
        · exact absurd hf ht
      · refine ⟨id, hcreated.bound, hcreated.tracked, hcreated.row.imp_right ?_⟩
        rintro ⟨-, hmiss, -⟩
        exact h.inv.missed hmiss

/-- A late update of a Pod that was replaced is dropped: its generation was tracked before. -/
theorem stale_guard_drops_old_generations_of_replaced_pod : ∃ tr x,
    Runs fullConfig .absent tr x ∧
    x.shared.mem.podUIDIsCurrent "ns/p" (samplePod "p" "u1" []) = false ∧
    ∃ i m p, i < x.shared.instant ∧ x.shared.memAt i = some m ∧ m.pods.lookup "ns/p" = some p ∧
      p.uid = "u1" := by
  obtain ⟨tr, x, hrun, hC, hupd, hcur⟩ := exists_run fullConfig .absent
    (call .boot .new 10 {} ++
      call (.lifecycle "ns/p") (.createPod (samplePod "p" "u1" [])) 17
        { claimed := .ok (sampleResult "s1") } ++
      call (.lifecycle "ns/p") (.deletePod (samplePod "p" "u1" [])) 12 {} ++
      call (.lifecycle "ns/p") (.createPod (samplePod "p" "u2" [])) 17
        { claimed := .ok (sampleResult "s2") } ++
      call (.lifecycle "ns/p") (.updatePod (samplePod "p" "u1" [])) 1 {})
    (fun tr s =>
      (machine fullConfig).Along Introduced (State.initial .absent) tr ∧
      s.Updates (.lifecycle "ns/p") (samplePod "p" "u1" []) ∧
      s.mem.podUIDIsCurrent "ns/p" (samplePod "p" "u1" []) = false)
    (by decide +kernel)
  exact ⟨tr, x, hrun, hcur, (stale_guard_drops_old_generations hrun hC).1 _ _ (.inl hupd) hcur⟩

/-- An `UpdatePod` brings a generation that was never seen while the old one is tracked: it returns
nil, and no version of the tables has ever tracked it. -/
theorem stale_guard_swallows_new_generation : ∃ tr x ev x',
    Runs fullConfig .absent tr x ∧ Step (machine fullConfig) x ev x' ∧
    returnedOk ev = some (.lifecycle "ns/p", .updatePod (samplePod "p" "u2" [])) ∧
    x.shared.mem.podUIDIsCurrent "ns/p" (samplePod "p" "u2" []) = false ∧
    ∀ m ∈ x.shared.mem :: x.shared.past, ∀ p ∈ m.pods.lookup "ns/p", p.uid ≠ "u2" := by
  exact exists_step fullConfig .absent
    (call .boot .new 10 {} ++
      call (.lifecycle "ns/p") (.createPod (samplePod "p" "u1" [])) 17
        { claimed := .ok (sampleResult "s1") } ++
      call (.lifecycle "ns/p") (.updatePod (samplePod "p" "u2" [])) 1 {})
    (.move (.lifecycle "ns/p") (World.reply {}))
    (fun _ s ev =>
      returnedOk ev = some (.lifecycle "ns/p", .updatePod (samplePod "p" "u2" [])) ∧
      s.mem.podUIDIsCurrent "ns/p" (samplePod "p" "u2" []) = false ∧
      ∀ m ∈ s.mem :: s.past, ∀ p ∈ m.pods.lookup "ns/p", p.uid ≠ "u2")
    (by decide +kernel)

end Guard

end VkSandbox
