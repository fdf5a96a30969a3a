import VkSandbox.Properties.Scenario
import VkSandbox.Provider.Creates

/-!
# Properties/Rejections — what a rejected Pod leaves of its key's claim

`CreatePod` checks the runtime first, and `ttl-seconds` and `template` last:

    runtime → quarantine → expiry → adopt, or queue for release → stranded claim
      → ttl, template → Claim

A Pod of another runtime does nothing at all.  A Pod that is rejected later has been through the
steps in between.  They end a settled claim in two ways only: it answers to someone else than the
Pod, and is queued for release; or it is past its deadline and the node, if it can be asked, lacks
it.
-/

namespace VkSandbox

open Interleave Interleave.Prog

variable {cfg : Config} {file : File} {tr tr' : List Ev} {pod : Pod} {k : Key} {c c' : Claim}
  {l : List Entry} {s s' : State} {op : Op}
  {x y y' : Interleave.Config State Memory Section Request Reply Tid Op Outcome}

/-! ## A settled claim during a call -/

/-- A settled claim, met again later in the call, is still settled. -/
theorem CallFrom.still_settled {t : Tid} (h : CallFrom cfg file tr x t op tr' y) (ht : t ≠ .boot)
    (hrow : x.shared.row k = some c) (hset : x.shared.mem.settled k = true)
    (hc' : y.shared.row k = some c') (hid : c'.id = c.id) : y.shared.mem.settled k = true :=
  (((h.evolves ht).still_settled hrow hset hc').resolve_right fun hu => hu.ne_row hrow hid.symm).2

/-- Its key is not found quarantined again. -/
theorem CallFrom.not_quarantined {t : Tid} (h : CallFrom cfg file tr x t op tr' y) (ht : t ≠ .boot)
    (hrow : x.shared.row k = some c) (hset : x.shared.mem.settled k = true) :
    k ∉ y.shared.mem.quarantined := by
  intro hq
  obtain ⟨c', hc', hl⟩ := h.run.inv.quarantined hq
  have he := h.evolves ht
  obtain ⟨-, hs⟩ | hu := he.still_settled hrow hset hc'
  · exact (Memory.settled_eq_true.mp hs).2 hq
  · rw [he.loaded] at hl
    exact hu.1 hl

/-- What the read-locked sections of the call saw, at their moments. -/
theorem CallFrom.not_sawQuarantined {t : Tid} (h : CallFrom cfg file tr x t op tr' y)
    (ht : t ≠ .boot) (hrow : x.shared.row k = some c) (hset : x.shared.mem.settled k = true) :
    ¬ SawQuarantined t (journal cfg file t (tr ++ .started t op :: tr')) k := by
  rintro ⟨s, hm, hq⟩
  obtain ⟨l₁, l₂, hj⟩ := List.append_of_mem hm
  obtain ⟨w, x₁, x₂, hw, rfl, -⟩ := h.entry hj
  exact hw.not_quarantined ht hrow hset hq

theorem CallFrom.not_sawStranded {t : Tid} (h : CallFrom cfg file tr x t op tr' y) (ht : t ≠ .boot)
    (hrow : x.shared.row k = some c) (hset : x.shared.mem.settled k = true) :
    ¬ SawStranded t (journal cfg file t (tr ++ .started t op :: tr')) k c.id := by
  rintro ⟨s, c', hm, htent, hc', hid⟩
  obtain ⟨l₁, l₂, hj⟩ := List.append_of_mem hm
  obtain ⟨w, x₁, x₂, hw, rfl, -⟩ := h.entry hj
  exact (Memory.settled_eq_true.mp (hw.still_settled ht hrow hset hc' hid)).1 htent

/-! ## The row before the adoption -/

/-- A preliminary section leaves a row as it is, but for the deadline, or ends it. -/
theorem row_of_preliminary {t : Tid} {a : Section} {m : Memory}
    (ha : Preliminary (.locked t a) = true) (h : (a.run m).claims.lookup k = some c') :
    ∃ c d, m.claims.lookup k = some c ∧ c' = { c with deadline := d } := by
  obtain ⟨c, hc, he⟩ | hcr := Section.row_edit h
  · cases he with
    | deadline d => exact ⟨c, d, hc, rfl⟩
    | rebind he => subst he; cases ha
    | preserve he => subst he; cases ha
  · cases a with
    | load | insertClaim => cases ha
    | _ => cases hcr

/-- **Until the adoption the row is the one the call found**, but for its deadline. -/
theorem CallFrom.same_row (h : CallFrom cfg file tr x (.lifecycle k) op tr' y)
    (hpre : ∀ e ∈ journal cfg file (.lifecycle k) (tr ++ .started (.lifecycle k) op :: tr'),
      Preliminary e.1 = true)
    (hrow : x.shared.row k = some c) (hc' : y.shared.row k = some c') :
    ∃ d, c' = { c with deadline := d } := by
  refine h.induct (P := fun w z => (∀ e ∈ journal cfg file (.lifecycle k)
    (tr ++ .started (.lifecycle k) op :: w), Preliminary e.1 = true) →
    ∀ c', z.shared.row k = some c' →
      ∃ d, c' = { c with deadline := d }) ?_ ?_ hpre c' hc'
  · intro x₀ hs _ c' hc'
    have ha : apply (.started (.lifecycle k) op) x.shared = some x₀.shared := Step.apply hs
    obtain ⟨hb, -⟩ | ⟨-, -, -, -, he⟩ := apply_started ha
    · cases hb
    · rw [he] at hc'
      exact ⟨c.deadline, Option.some.inj (hc'.symm.trans hrow)⟩
  · intro w x₁ ev x₂ hw hs hev ih hpre c' hc'
    rw [hw.journal_snoc hs hev] at hpre
    obtain ⟨hg, ha⟩ := hw.run.next hs
    by_cases htid : ev.tid = some (.lifecycle k)
    · rw [if_pos htid] at hpre
      have hold := ih fun e he => hpre e (List.mem_append_left _ he)
      obtain ⟨hm, -⟩ | ⟨t, a, rfl, hm, -⟩ | ⟨hend, -⟩ := (effect ha).tables
      · exact hold c' (by rw [State.row, ← hm]; exact hc')
      · rw [State.row, hm] at hc'
        obtain ⟨c₁, d, hc₁, rfl⟩ :=
          row_of_preliminary (t := t) (hpre (.locked t a, x₁.shared) (by simp)) hc'
        obtain ⟨d₁, rfl⟩ := hold c₁ hc₁
        exact ⟨d, rfl⟩
      · cases ev with
        | crashed => cases htid
        | finished u op' r =>
          cases htid
          cases hend
        | _ => cases hend
    · rw [if_neg htid] at hpre
      have hown : Own k x₁.shared x₂.shared := (hw.calm (by simp) hs hev htid).own k rfl
      cases hc₁ : x₁.shared.row k with
      | none =>
        rw [hown.empty hc₁] at hc'
        cases hc'
      | some c₁ =>
        obtain ⟨d₁, rfl⟩ := ih hpre c₁ hc₁
        obtain ⟨d, hd⟩ | ⟨hn, -⟩ := hown.kept hc₁
        · rw [hd] at hc'
          exact ⟨d, (Option.some.inj hc').symm⟩
        · rw [hn] at hc'
          cases hc'

/-! ## What the sections of a rejected call do to the claim -/

/-- The section takes the sandbox `id` out of the row of `k`. -/
def Drops (k : Key) (id : String) (a : Section) (m : Memory) : Prop :=
  (∃ c, m.claims.lookup k = some c ∧ c.id = id) ∧
    ¬ ∃ c, (a.run m).claims.lookup k = some c ∧ c.id = id

/-- The section puts the sandbox `id` into the release queue. -/
def Queues (id : String) (a : Section) (m : Memory) : Prop :=
  ∃ c ∈ (a.run m).releasing, c.id = id ∧ c ∉ m.releasing

theorem Drops.removes {id : String} {a : Section} {m : Memory} (h : Drops k id a m) :
    ∃ c, m.claims.lookup k = some c ∧ c.id = id ∧ a.Removes m k c := by
  obtain ⟨⟨c, hc, hid⟩, hno⟩ := h
  obtain ⟨c', hc', hsame⟩ | hr := Section.row_forward (a := a) hc
  · exact absurd ⟨c', hc', hsame.id.trans hid⟩ hno
  · exact ⟨c, hc, hid, hr⟩

/-- **A rejected Pod spares its key's settled claim.**  Of a Pod of another runtime nothing comes at
all, whatever its key holds.  Otherwise, if the call found a settled claim at the key, it sends no
`Release` for it; it takes the claim out of its row only to queue it for release, when it answers to
someone else than the Pod, or because the call found it past its deadline and, with a lister,
missing from the node; and it queues it in the first case only. -/
theorem rejected_pod_spares_claim {err : ProviderError}
    (h : CallFrom cfg file tr x (.lifecycle pod.key) (.createPod pod) tr' y)
    (hfin : Step (machine cfg) y (.finished (.lifecycle pod.key) (.createPod pod) (.err err)) y')
    (herr : err.OfAnnotations = true) :
    (∀ key rt, err = .wrongRuntime key rt → journal cfg file (.lifecycle pod.key)
      (tr ++ .started (.lifecycle pod.key) (.createPod pod) :: tr') = []) ∧
    ∀ c, x.shared.row pod.key = some c → x.shared.mem.settled pod.key = true →
      ∀ l₁ ev s l₂, journal cfg file (.lifecycle pod.key)
        (tr ++ .started (.lifecycle pod.key) (.createPod pod) :: tr') = l₁ ++ (ev, s) :: l₂ →
      (∀ t token u, ev ≠ .asked t (.sendRelease c.id token) u) ∧
      ∀ t a, ev = .locked t a →
        (Drops pod.key c.id a s.mem →
          a = .adoptExistingClaim pod.key pod ∧ c.adoptableBy pod = false ∨
          a = .dropClaim pod.key c.id ∧ SawExpired cfg (.lifecycle pod.key) l₁ pod.key c.id) ∧
        (Queues c.id a s.mem → a = .adoptExistingClaim pod.key pod ∧
          c.adoptableBy pod = false) := by
  have hdone : CreateReturn _ pod _ (.err err) :=
    h.run.finished (follows_createPod cfg pod.key) hfin pod rfl
  obtain ⟨hnoclaim, hruntime⟩ := hdone
  refine ⟨hruntime, fun c hrow hset l₁ ev s l₂ hj => ?_⟩
  -- the moment of the entry, and what the text says of it
  have htext : CreateText cfg pod l₁ ev s :=
    h.run.entry_text (follows_createPod cfg pod.key) h.inCall hj pod rfl
  replace htext := htext.resolve_left fun hc =>
    hnoclaim herr (hc.mono (by rw [hj]; exact List.subset_append_left _ _))
  obtain ⟨w, x₁, x₂, hw, rfl, rfl, hs⟩ := h.entry hj
  have hstranded := hw.not_sawStranded nofun hrow hset
  have htid : ∀ {t a}, ev = .locked t a → t = .lifecycle pod.key := by
    rintro t a rfl
    have hmem : (.locked t a, x₁.shared) ∈ journal cfg file (.lifecycle pod.key)
      (tr ++ .started (.lifecycle pod.key) (.createPod pod) :: tr') := by rw [hj]; simp
    exact Option.some.inj (Machine.journal_tid (fun e he => by cases he) _ hmem).1
  have hadopt : ∀ {c₁ : Claim}, x₁.shared.row pod.key = some c₁ → c₁.adoptableBy pod = false →
      (∀ e ∈ journal cfg file (.lifecycle pod.key)
        (tr ++ .started (.lifecycle pod.key) (.createPod pod) :: w), Preliminary e.1 = true) →
      c.adoptableBy pod = false := by
    intro c₁ hc₁ had hpre
    obtain ⟨d, rfl⟩ := hw.same_row hpre hrow hc₁
    exact had
  refine ⟨?_, ?_⟩
  · rintro t token u rfl
    have hmem : (.asked t (.sendRelease c.id token) u, x₁.shared) ∈ journal cfg file
        (.lifecycle pod.key) (tr ++ .started (.lifecycle pod.key) (.createPod pod) :: tr') := by
      rw [hj]; simp
    obtain rfl := Option.some.inj (Machine.journal_tid (fun e he => by cases he) _ hmem).1
    exact hstranded htext
  · rintro t a rfl
    obtain rfl := htid rfl
    refine ⟨fun hdrops => ?_, ?_⟩
    · obtain ⟨c₁, hc₁, hid, hrem⟩ := hdrops.removes
      cases a with
      | settle before live => exact absurd htext (hw.not_sawQuarantined nofun hrow hset)
      | dropClaim key id =>
        obtain ⟨rfl, hsaw⟩ := htext
        obtain ⟨-, hid'⟩ := hrem
        obtain rfl : id = c.id := hid'.symm.trans hid
        exact .inr ⟨rfl, hsaw⟩
      | adoptExistingClaim key p =>
        obtain ⟨rfl, rfl, hpre⟩ := htext
        exact .inl ⟨rfl, hadopt hc₁ hrem.2.2 hpre⟩
      | withdrawClaim key id =>
        obtain ⟨rfl, hsaw⟩ := htext
        obtain ⟨-, hid'⟩ := hrem
        obtain rfl : id = c.id := hid'.symm.trans hid
        exact absurd hsaw hstranded
      | refreshDeadline => exact absurd hrem id
      | _ => exact absurd htext id
    · rintro ⟨c₁, hc₁, hid, hnew⟩
      obtain hold | ⟨st, now, rfl, -⟩ | ⟨key, p, rfl, hrow₁, -, had⟩ | ⟨key, rfl, -⟩ :=
        Section.releasing_back hc₁
      · exact absurd hold hnew
      · exact absurd htext id
      · obtain ⟨rfl, rfl, hpre⟩ := htext
        exact ⟨rfl, hadopt hrow₁ had hpre⟩
      · exact absurd htext id

/-- The `CreatePod` an event ends with an error. -/
def rejection : Ev → Option (Tid × Op × ProviderError)
  | .finished t op (.err err) => some (t, op, err)
  | _ => none

instance (ev : Ev) (e : Tid × Op × ProviderError) : Decidable (rejection ev = some e) :=
  inferInstanceAs (Decidable ((_ : Option (Tid × Op × ProviderError)) = _))

theorem rejection_eq_some {ev : Ev} {t : Tid} {err : ProviderError}
    (h : rejection ev = some (t, op, err)) : ev = .finished t op (.err err) := by
  unfold rejection at h
  split at h
  · cases h; rfl
  · cases h

/-- A bare Pod without a template. -/
def untemplated (uid : String) : Pod := { samplePod "p" uid [] with annotations := ∅ }

/-- A bare Pod is bound to a sandbox. -/
def boundOnce : Schedule :=
  call .boot .new 10 {} ++
  call (.lifecycle "ns/p") (.createPod (samplePod "p" "uid-1" [])) 17
    { claimed := .ok (sampleResult "s1") }

/-- A Pod of another generation, rejected for its missing template, queues the claim it finds. -/
theorem rejected_pod_spares_claim_of_untemplated : ∃ tr x tr' y y' c,
    CallFrom fullConfig .absent tr x (.lifecycle "ns/p") (.createPod (untemplated "uid-2")) tr' y ∧
    Step (machine fullConfig) y (.finished (.lifecycle "ns/p") (.createPod (untemplated "uid-2"))
      (.err (.missingTemplate "ns/p"))) y' ∧
    x.shared.row "ns/p" = some c ∧ x.shared.mem.settled "ns/p" = true ∧
    ∀ l₁ ev s l₂, journal fullConfig .absent (.lifecycle "ns/p")
        (tr ++ .started (.lifecycle "ns/p") (.createPod (untemplated "uid-2")) :: tr')
          = l₁ ++ (ev, s) :: l₂ → ∀ t token u, ev ≠ .asked t (.sendRelease c.id token) u := by
  obtain ⟨tr, x, tr', y, ev, y', hcall, hfin, hrow, hset, hev⟩ := exists_call fullConfig .absent
    boundOnce (.lifecycle "ns/p") (.createPod (untemplated "uid-2"))
    (steps (.lifecycle "ns/p") 5 {})
    (.move (.lifecycle "ns/p") (World.reply {}))
    (fun s _ _ ev => s.row "ns/p" = some (sampleClaim "s1" (samplePod "p" "uid-1" [])) ∧
      s.mem.settled "ns/p" = true ∧
      rejection ev = some
        (.lifecycle "ns/p", .createPod (untemplated "uid-2"), .missingTemplate "ns/p"))
    (by decide +kernel)
  rw [rejection_eq_some hev] at hfin
  have hkey : (untemplated "uid-2").key = "ns/p" := by decide
  rw [← hkey] at hcall hfin hrow hset
  have hmain := (rejected_pod_spares_claim hcall hfin rfl).2 _ hrow hset
  rw [hkey] at hmain hcall hfin hrow hset
  exact ⟨tr, x, tr', y, y', _, hcall, hfin, hrow, hset, fun l₁ ev s l₂ hj =>
    (hmain l₁ ev s l₂ hj).1⟩

/-- **A rejected Pod ends a settled claim that does not expire.** -/
theorem rejected_pod_queues_claim : ∃ tr x tr' y y' c,
    CallFrom fullConfig .absent tr x (.lifecycle "ns/p") (.createPod (untemplated "uid-2")) tr' y ∧
    Step (machine fullConfig) y (.finished (.lifecycle "ns/p") (.createPod (untemplated "uid-2"))
      (.err (.missingTemplate "ns/p"))) y' ∧
    (∀ ev ∈ tr', ev.tid = some (.lifecycle "ns/p")) ∧
    x.shared.row "ns/p" = some c ∧ x.shared.mem.settled "ns/p" = true ∧ c.deadline = 0 ∧
    y.shared.row "ns/p" = none ∧ c ∈ y.shared.mem.releasing := by
  obtain ⟨tr, x, tr', y, ev, y', hcall, hfin, hev, hown, hbefore, hset, hnone,
      hqueue⟩ :=
    exists_call fullConfig .absent boundOnce (.lifecycle "ns/p")
    (.createPod (untemplated "uid-2")) (steps (.lifecycle "ns/p") 5 {})
    (.move (.lifecycle "ns/p") (World.reply {}))
    (fun s tr s' ev =>
      rejection ev = some
        (.lifecycle "ns/p", .createPod (untemplated "uid-2"), .missingTemplate "ns/p") ∧
      tr.all (fun ev => decide (ev.tid = some (.lifecycle "ns/p"))) = true ∧
      s.row "ns/p" = some (sampleClaim "s1" (samplePod "p" "uid-1" [])) ∧
      s.mem.settled "ns/p" = true ∧ s'.row "ns/p" = none ∧
      s'.mem.releasing = [sampleClaim "s1" (samplePod "p" "uid-1" [])])
    (by decide +kernel)
  rw [rejection_eq_some hev] at hfin
  have hown : ∀ ev ∈ tr', ev.tid = some (.lifecycle "ns/p") := fun ev hev =>
    of_decide_eq_true (List.all_eq_true.mp hown ev hev)
  exact ⟨tr, x, tr', y, y', _, hcall, hfin, hown, hbefore, hset, rfl, hnone, by rw [hqueue]; simp⟩

end VkSandbox
