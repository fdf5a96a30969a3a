import VkSandbox.Provider.Releases
import VkSandbox.Properties.Bindings
import VkSandbox.Properties.Conservation
import VkSandbox.Properties.Scenario

/-!
# Properties/Reuse — a released sandbox is not used again

A `Release` that returns nil leaves the row of its claim where it is, until the goroutine that sent
it takes its next step:

    release id ─nil─▸  │ row k is still there │  withdrawClaim k id ─▸ gone

A crash in the gap, or a failed save after it, and the next process loads the row again.  So a row
with a released id is in one of two places: in the gap of its own key's queue, or among the rows
loaded from the file, where it waits for a listing that will not have it.  Neither can be adopted.
-/

namespace VkSandbox

open Interleave

variable {cfg : Config} {s s' : State} {t : Tid} {ev : Ev} {k : Key} {c : Claim} {id : String}

/-- An id is released when a nil reply says so. -/
theorem released_back (hs : apply ev s = some s') (h : id ∈ s'.ledger.released) :
    id ∈ s.ledger.released ∨ ∃ u token, ev = .asked u (.release id token) (.ok ()) := by
  cases ev with
  | started t op =>
    obtain ⟨-, -, -, -, rfl⟩ | ⟨-, -, -, -, rfl⟩ := apply_started hs <;> exact .inl h
  | read t | locked t a => cases hs; exact .inl h
  | finished t op r =>
    cases t with
    | boot => cases hs; cases r <;> exact .inl h
    | _ => cases hs; exact .inl h
  | crashed =>
    simp only [apply] at hs
    split at hs
    · cases hs
    · cases hs
      exact .inl h
  | asked t e r =>
    change answer t e r s = some s' at hs
    cases e with
    | release id' token =>
      cases r with
      | error err => cases hs; exact .inl h
      | ok u =>
        cases hs
        rcases Finset.mem_insert.mp h with rfl | h
        · exact .inr ⟨t, token, rfl⟩
        · exact .inl h
    | now =>
      obtain ⟨rfl, -⟩ := answer_now hs
      exact .inl h
    | rename =>
      cases r with
      | error err => cases hs; exact .inl h
      | ok u =>
        obtain ⟨d, -, rfl⟩ := answer_rename hs
        exact .inl h
    | rangeOver keys | lockSave | unlockSave =>
      simp only [answer] at hs
      split at hs
      · cases hs; exact .inl h
      · cases hs
    | claim spec =>
      cases r with
      | error err => cases hs; exact .inl h
      | ok res =>
        simp only [answer] at hs
        split at hs
        · cases hs
        · cases hs; exact .inl h
    | readFile =>
      cases r with
      | failed err => cases hs; exact .inl h
      | absent | undecodable err | decoded st =>
        simp only [answer] at hs
        split at hs
        · cases hs; exact .inl h
        · cases hs
    | sandboxes | mkdirAll | writeFile st => cases r <;> cases hs <;> exact .inl h
    | _ => cases hs; exact .inl h

/-! ## A sandbox stays at its key -/

/-- **Within one process a sandbox stays where it is**: at one key, and once queued in no row. -/
structure Anchored (s : State) : Prop where
  rows : ∀ {m k k' c c'}, s.SeenAlive m → m.claims.lookup k = some c → s.row k' = some c' →
    c.id = c'.id → k = k' ∧ c.cred = c'.cred
  queue : ∀ {m k c c'}, s.SeenAlive m → c' ∈ m.releasing → s.row k = some c → c'.id ≠ c.id

/-- A row of this process is the edit of a row, or its id has never been in the tables. -/
theorem row_alive_back (hi : Inv cfg s) (hg : Guard cfg ev s) (hs : apply ev s = some s')
    {m : Memory} {cr : Credential} (hm : s'.SeenAlive m) (hcr : m.all.Holds cr)
    (hc : s'.row k = some c) (hid : cr.id = c.id) :
    m = s'.mem ∨ s.SeenAlive m ∧ ∃ c₀, s.row k = some c₀ ∧ c₀.cred = c.cred := by
  have he := effect hs
  obtain ⟨n, hborn, hn⟩ := hm
  obtain hold | ⟨-, rfl⟩ := he.memAt_cases hn
  swap
  · exact .inl rfl
  obtain hb | ⟨rfl, -⟩ := he.born
  swap
  · -- a process that begins has no rows
    obtain ⟨-, -, hp, -, rfl⟩ | ⟨hb, -⟩ := apply_started hs
    · have hrow : s.row k = some c := hc
      rw [State.row, hi.down hp] at hrow
      simp at hrow
    · exact absurd rfl hb
  rw [hb] at hborn
  refine .inr ⟨⟨n, hborn, hold⟩, ?_⟩
  obtain ⟨hmem, -⟩ | ⟨t, a, rfl, hmem, -⟩ | ⟨-, hmem, -⟩ := he.tables
  · exact ⟨c, by rwa [State.row, hmem] at hc, rfl⟩
  · rw [State.row, hmem] at hc
    obtain ⟨c₀, h₀, hsame⟩ | hcr' := Section.row_back hc
    · exact ⟨c₀, h₀, hsame.cred.symm⟩
    · cases a with
      | load st now =>
        -- before the load the process has had no table but the empty one
        obtain ⟨-, hempty, -, -, -, -, -, hb⟩ := hg.2
        have hlast : s.memAt n = some s.mem := by
          rw [le_antisymm (State.memAt_le hold) (hb ▸ hborn)]
          exact s.memAt_instant
        obtain rfl : m = s.mem := Option.some.inj (hold.symm.trans hlast)
        rw [hempty] at hcr
        exact absurd hcr (by rintro (⟨k, c, h, -⟩ | ⟨c, h, -⟩) <;> simp [Memory.all] at h)
      | insertClaim key pod c₀ =>
        obtain ⟨rfl, rfl⟩ := hcr'
        obtain ⟨-, -, -, -, res, now, hres, rfl, -⟩ := hg.2
        exact absurd hid ((hi.hand hres).2.2.2.2.2 ⟨n, hold⟩ hcr)
      | _ => exact hcr'.elim
  · rw [State.row, hmem] at hc
    simp at hc

theorem Anchored.step (hi : Inv cfg s) (hd : Distinct s') (h : Anchored s) (hg : Guard cfg ev s)
    (hs : apply ev s = some s') : Anchored s' where
  rows := fun {m k k' c c'} hm hc hc' hid => by
    obtain rfl | ⟨hm, c₀, h₀, hcr⟩ :=
      row_alive_back hi hg hs hm (.inl ⟨k, c, hc, rfl⟩ : m.all.Holds c.cred) hc' hid
    · obtain rfl := (hd.seen s'.seen_mem).rows hc hc' hid
      obtain rfl : c = c' := Option.some.inj (hc.symm.trans hc')
      exact ⟨rfl, rfl⟩
    · obtain ⟨rfl, hcr'⟩ := h.rows hm hc h₀ (hid.trans (congrArg Credential.id hcr).symm)
      exact ⟨rfl, hcr'.trans hcr⟩
  queue := fun {m k c c'} hm hc' hc hid => by
    obtain rfl | ⟨hm, c₀, h₀, hcr⟩ :=
      row_alive_back hi hg hs hm (Memory.holds_queued hc') hc hid
    · exact (hd.seen s'.seen_mem).apart hc hc' hid.symm
    · exact h.queue hm hc' h₀ (hid.trans (congrArg Credential.id hcr).symm)

theorem anchored_initial (file : File) : Anchored (State.initial file) where
  rows := fun _ _ hc _ => by simp [State.row, State.initial] at hc
  queue := fun _ _ hc _ => by simp [State.row, State.initial] at hc

section Runs

variable {file : File} {tr tr' : List Ev}
  {x x' : Interleave.Config State Memory Section Request Reply Tid Op Outcome}

theorem Runs.anchored (h : Runs cfg file tr x) (hf : file.content.Distinct) :
    Anchored x.shared := by
  induction h with
  | nil => exact anchored_initial file
  | @snoc tr x ev x' h hs ih =>
    have hrun : Runs cfg file tr x := h
    obtain ⟨hg, ha⟩ := hrun.next hs
    have hrun' : Runs cfg file (tr ++ [ev]) x' := h.snoc hs
    exact ih.step hrun.inv (hrun'.distinct hf) hg ha

/-- What an entry of a journal found, its process has had. -/
theorem Runs.entry_seenAlive (h : Runs cfg file tr x) (ht : t ≠ .boot)
    (hj : (ev, s) ∈ journal cfg file t tr) : x.shared.SeenAlive s.mem := by
  have hev := h.entry_evolves ht hj
  exact hev.seenAlive ⟨s.instant, (h.entry_guard hj).1.born, s.memAt_instant⟩

/-! ## Whose release it is -/

/-- **Where a `Release` comes from**: a key's queue has had the claim at its key, the owner re-check
in the release queue. -/
inductive ReleaseSource (s : State) (cr : Credential) : Tid → Prop where
  | row {k : Key} {m : Memory} {c : Claim} : s.SeenAlive m → m.claims.lookup k = some c →
    c.cred = cr →
      ReleaseSource s cr (.lifecycle k)
  | queue {m : Memory} {c : Claim} : s.SeenAlive m → c ∈ m.releasing → c.cred = cr →
      ReleaseSource s cr .ownerRecheck

theorem ReleaseSource.evolves {cr : Credential} (h : ReleaseSource s cr t) (he : Evolves s s') :
    ReleaseSource s' cr t := by
  cases h with
  | row hm hc hcr => exact .row (he.seenAlive hm) hc hcr
  | queue hm hc hcr => exact .queue (he.seenAlive hm) hc hcr

/-- What is released is no row, or the row of the releasing queue's own key. -/
theorem ReleaseSource.row_of {cr : Credential} (h : ReleaseSource s cr t) (ha : Anchored s)
    (hc : s.row k = some c) (hid : c.id = cr.id) : t = .lifecycle k ∧ c.cred = cr := by
  cases h with
  | row hm hc' hcr =>
    obtain ⟨rfl, hcr'⟩ := ha.rows hm hc' hc (by rw [hid, ← hcr]; rfl)
    exact ⟨rfl, hcr'.symm.trans hcr⟩
  | queue hm hc' hcr => exact absurd (by rw [hid, ← hcr]; rfl) (ha.queue hm hc' hc)

theorem Runs.release_source (h : Runs cfg file tr x) {token : String}
    (hs : Step (machine cfg) x (.asked t (.sendRelease id token) ()) x') :
    ReleaseSource x.shared ⟨id, token⟩ t := by
  obtain ⟨op, hop, htext⟩ := h.asked (follows_release cfg t) hs
  have hread := htext.sends id token _ rfl
  obtain ⟨n, hcalls⟩ := h.calls_inCall hop
  obtain ⟨-, hcause, -⟩ := (h.next hs).1
  generalize (⟨id, token⟩ : Credential) = cr at hcause hread ⊢
  cases hcause with
  | @undo k pod c hserves htent hrow =>
    exact .row ⟨_, h.inv.born, x.shared.memAt_instant⟩ hrow rfl
  | @delete k pod m c hdel hkey hm hcur hrow hauth =>
    obtain ⟨n', hdel⟩ := hdel
    cases hcalls.symm.trans hdel
    obtain ⟨s, c', hj, hc', hcr⟩ := hread
    rw [hkey] at hc'
    exact .row (h.entry_seenAlive (fun he => by cases he) hj) hc' hcr
  | @queued m c hseen hq =>
    obtain ⟨he, -⟩ | hm := h.mayCall hop
    · cases he
    cases op with
    | recheckOwners now base =>
      obtain ⟨s, c', hj, hc', hcr⟩ := hread
      exact .queue (h.entry_seenAlive (fun he => by cases he) hj) hc' hcr
    | _ => cases hm

/-- **A nil reply is for a claim of the replied goroutine's own**: no row but its key's has that
id. -/
theorem Runs.released_row (h : Runs cfg file tr x) (hf : file.content.Distinct) {token : String}
    (hs : Step (machine cfg) x (.asked t (.release id token) (.ok ())) x')
    (hc : x.shared.row k = some c) (hid : c.id = id) : t = .lifecycle k := by
  obtain ⟨op, hop, htext⟩ := h.asked (follows_release cfg t) hs
  obtain ⟨l, s₀, hl⟩ := htext.answers id token _ rfl
  have hmem : (.asked t (.sendRelease id token) (), s₀) ∈ journal cfg file t tr := by rw [hl]; simp
  have ht : t ≠ .boot := by
    rintro rfl
    obtain ⟨op', hop', hmay⟩ := h.mayAsk hs
    obtain ⟨-, rfl⟩ | hm := h.mayCall hop'
    · cases hmay.not_releases rfl
    · cases hm
  have hev := h.entry_evolves ht hmem
  obtain ⟨tr₁, tr₂, x₁, x₂, -, h₁, rfl, -, hs₁, -⟩ := h.last_entry hl
  exact (((h₁.release_source hs₁).evolves hev).row_of (h.anchored hf) hc hid).1

/-- **A sandbox in use is released by its own key's queue only**, with the token of its row, and
only while the row is tentative or by a `DeletePod` with authority. -/
theorem in_use_released_by_own_queue (h : Runs cfg file tr x) (hf : file.content.Distinct)
    {token : String} (hs : Step (machine cfg) x (.asked t (.sendRelease id token) ()) x')
    (hc : x.shared.row k = some c) (hid : c.id = id) :
    t = .lifecycle k ∧ c.token = token ∧
      (k ∈ x.shared.mem.tentative ∧ (∃ pod, x.shared.Serves t pod) ∨
        ∃ pod, x.shared.Deletes t pod ∧ pod.key = k ∧
          x.shared.Authorised k (controllerOf pod)) := by
  obtain ⟨rfl, hcr⟩ := (h.release_source hs).row_of (h.anchored hf) hc hid
  refine ⟨rfl, congrArg Credential.token hcr, ?_⟩
  obtain ⟨-, hcause, -⟩ := (h.next hs).1
  generalize (⟨id, token⟩ : Credential) = cr at hcause
  cases hcause with
  | undo hserves htent => exact .inl ⟨htent, _, hserves⟩
  | delete hdel hkey _ _ _ hauth => exact .inr ⟨_, hdel, hkey, hauth⟩

/-- The controller of `ns/p` is gone: its delete releases the sandbox it holds, with that row's
token. -/
theorem in_use_released_by_own_queue_of_gone_owner : ∃ tr x t x' c,
    Runs fullConfig .absent tr x ∧
    Step (machine fullConfig) x (.asked t (.sendRelease "s1" "token-s1") ()) x' ∧
    x.shared.row "ns/p" = some c ∧ c.id = "s1" ∧ t = .lifecycle "ns/p" ∧
    ∃ pod, x.shared.Deletes t pod ∧ pod.key = "ns/p" ∧
      x.shared.Authorised "ns/p" (controllerOf pod) := by
  obtain ⟨tr, x, ev, x', hrun, hstep, hev, hrow, htent⟩ := exists_step fullConfig .absent
    (call .boot .new 10 {} ++
      call (.lifecycle "ns/p") (.createPod (samplePod "p" "u1" [sampleOwner "o1"])) 17
        { claimed := .ok (sampleResult "s1") } ++
      call (.lifecycle "ns/p") (.deletePod (samplePod "p" "u1" [sampleOwner "o1"])) 3
        { owner := .notFound "rs" })
    (.move (.lifecycle "ns/p") (World.reply {}))
    (fun _ s ev => sentRelease ev = some (.lifecycle "ns/p", ⟨"s1", "token-s1"⟩) ∧
      (s.row "ns/p").map (·.id) = some "s1" ∧ "ns/p" ∉ s.mem.tentative)
    (by decide +kernel)
  obtain rfl := sentRelease_eq_some hev
  obtain ⟨c, hc, hid⟩ := Option.map_eq_some_iff.mp hrow
  obtain ⟨ht, -, hwhy⟩ := in_use_released_by_own_queue hrun StateFile.distinct_empty hstep hc hid
  exact ⟨tr, x, _, x', c, hrun, hstep, hc, hid, ht, hwhy.resolve_left fun h => htent h.1⟩

/-! ## Where a released id can still be -/

/-- A `Release` of `id` had returned nil when a later `New` began. -/
def ReleasedEarlier (tr : List Ev) (id : String) : Prop :=
  ∃ tr₁ tr₂ u token, tr = tr₁ ++ .started .boot .new :: tr₂ ∧
    .asked u (.release id token) (.ok ()) ∈ tr₁

theorem ReleasedEarlier.snoc (h : ReleasedEarlier tr id) (ev : Ev) :
    ReleasedEarlier (tr ++ [ev]) id := by
  obtain ⟨tr₁, tr₂, u, token, rfl, hmem⟩ := h
  exact ⟨tr₁, tr₂ ++ [ev], u, token, by simp, hmem⟩

theorem ReleasedEarlier.back (h : ReleasedEarlier (tr ++ [ev]) id) :
    ReleasedEarlier tr id ∨ ev = .started .boot .new := by
  obtain ⟨tr₁, tr₂, u, token, he, hmem⟩ := h
  obtain rfl | ⟨tr₃, ev', rfl⟩ := List.eq_nil_or_concat tr₂
  · cases (List.append_inj' he rfl).2
    exact .inr rfl
  · rw [List.concat_eq_append, ← List.cons_append, ← List.append_assoc] at he
    exact .inl ⟨tr₁, tr₃, u, token, (List.append_inj' he rfl).1, hmem⟩

/-- An id is released when a nil reply in the trace says so. -/
theorem Runs.released_answered (h : Runs cfg file tr x) :
    id ∈ x.shared.ledger.released ↔ ∃ u token, .asked u (.release id token) (.ok ()) ∈ tr := by
  induction h with
  | nil =>
    refine ⟨fun h => absurd h (Finset.notMem_empty _), ?_⟩
    rintro ⟨u, token, hmem⟩
    cases hmem
  | @snoc tr x ev x' h hs ih =>
    have ha : apply ev x.shared = some x'.shared := Step.apply hs
    constructor
    · intro hid
      obtain hid | ⟨u, token, rfl⟩ := released_back ha hid
      · obtain ⟨u, token, hmem⟩ := ih.mp hid
        exact ⟨u, token, List.mem_append_left _ hmem⟩
      · exact ⟨u, token, by simp⟩
    · rintro ⟨u, token, hmem⟩
      rcases List.mem_append.mp hmem with hmem | hmem
      · exact (effect ha).released (ih.mpr ⟨u, token, hmem⟩)
      · obtain rfl := List.mem_singleton.mp hmem
        rw [← Option.some.inj ha]
        exact Finset.mem_insert_self _ _

/-- **The node lists no sandbox that was released before the process asking for the listing
began.** -/
def ListsUnreleased (tr : List Ev) : Prop :=
  ∀ tr₁ t listed tr₂, tr = tr₁ ++ .asked t .sandboxes (.ok listed) :: tr₂ →
    ∀ id ∈ listedIds listed, ¬ ReleasedEarlier tr₁ id

theorem ListsUnreleased.left (h : ListsUnreleased (tr ++ tr')) : ListsUnreleased tr := by
  rintro tr₁ t listed tr₂ rfl
  exact h tr₁ t listed (tr₂ ++ tr') (by simp)

/-- **Where a released id can still be**: loaded from the file and not vouched for, or in the gap
before its own key's queue strikes it off. -/
structure Spent (cfg : Config) (file : File) (tr : List Ev) (s : State) : Prop where
  rows : ∀ {k c}, s.row k = some c → c.id ∈ s.ledger.released →
    c.id ∈ s.ledger.loaded ∧ ReleasedEarlier tr c.id ∨
      JustReleased (.lifecycle k) c.id (journal cfg file (.lifecycle k) tr)
  booting : s.phase = .booting → ∀ id ∈ s.ledger.released, ReleasedEarlier tr id
  vouched : ∀ id ∈ s.ledger.vouched, ¬ ReleasedEarlier tr id

/-- In the gap a goroutine does one thing only. -/
theorem Runs.strikes_next (h : Runs cfg file tr x) (hj : JustReleased t id (journal cfg file t tr))
    (hs : Step (machine cfg) x ev x') (htid : ev.tid = some t) :
    ev = .locked t (strikesOff t id) := by
  have htext : ∀ {ev'}, (∃ op, InCall x t op ∧ ReleaseText t op (journal cfg file t tr) ev') →
      ev' = .locked t (strikesOff t id) := by
    rintro ev' ⟨op, -, ht⟩
    exact ht.strikes id hj
  cases ev with
  | started u op =>
    cases htid
    have hidle : journal cfg file t tr = [] := by
      cases hs with
      | started hn _ => exact Run.journal_idle h hn
    rw [hidle] at hj
    exact absurd hj (noneWaiting_nil id)
  | read u => cases htid; exact htext (h.read (follows_release cfg t) hs)
  | locked u a => cases htid; exact htext (h.locked (follows_release cfg t) hs)
  | asked u e r => cases htid; exact htext (h.asked (follows_release cfg t) hs)
  | finished u op r =>
    cases htid
    exact absurd hj (h.finished (follows_release cfg t) hs id)
  | crashed => cases htid

/-- A row is the edit of a row, or a section has put it in. -/
theorem row_event_back (hs : apply ev s = some s') (hc : s'.row k = some c) :
    (∃ c₀, s.row k = some c₀ ∧ c₀.id = c.id) ∨ ∃ t a, ev = .locked t a ∧ a.Creates k c := by
  obtain ⟨hmem, -⟩ | ⟨t, a, rfl, hmem, -⟩ | ⟨-, hmem, -⟩ := (effect hs).tables
  · exact .inl ⟨c, by rwa [State.row, hmem] at hc, rfl⟩
  · rw [State.row, hmem] at hc
    obtain ⟨c₀, h₀, hsame⟩ | hcr := Section.row_back hc
    · exact .inl ⟨c₀, h₀, hsame.id.symm⟩
    · exact .inr ⟨t, a, rfl, hcr⟩
  · rw [State.row, hmem] at hc
    simp at hc

/-- A crash forgets the tables. -/
theorem mem_crashed (hs : apply .crashed s = some s') : s'.mem = {} := by
  simp only [apply] at hs
  split at hs
  · cases hs
  · cases hs
    rfl

/-- What was loaded stays loaded as long as there are rows. -/
theorem loaded_of_row (hi : Inv cfg s) (hg : Guard cfg ev s) (hs : apply ev s = some s')
    (hc : s.row k = some c) : s'.ledger.loaded = s.ledger.loaded := by
  have hempty : s.mem ≠ {} := by
    intro he
    rw [State.row, he] at hc
    simp at hc
  obtain hsame | rfl | ⟨t, r, rfl⟩ := (effect hs).loaded
  · exact hsame
  · obtain ⟨-, -, hp, -⟩ | ⟨hb, -⟩ := apply_started hs
    · exact absurd (hi.down hp) hempty
    · exact absurd rfl hb
  · exact absurd hg.2.2 hempty

theorem Spent.rows_step (h : Runs cfg file tr x) (hf : file.content.Distinct)
    (hsp : Spent cfg file tr x.shared) (hs : Step (machine cfg) x ev x')
    (hc : x'.shared.row k = some c) (hrel : c.id ∈ x'.shared.ledger.released) :
    c.id ∈ x'.shared.ledger.loaded ∧ ReleasedEarlier (tr ++ [ev]) c.id ∨
      JustReleased (.lifecycle k) c.id (journal cfg file (.lifecycle k) (tr ++ [ev])) := by
  obtain ⟨hg, ha⟩ := h.next hs
  have hj : journal cfg file (.lifecycle k) (tr ++ [ev]) = _ := Run.journal_snoc h hs []
  obtain ⟨c₀, h₀, hid⟩ | ⟨t, a, rfl, hcr⟩ := row_event_back ha hc
  · rw [← hid] at hrel ⊢
    obtain hold | ⟨u, token, rfl⟩ := released_back ha hrel
    · obtain ⟨hload, hearly⟩ | hgap := hsp.rows h₀ hold
      · rw [loaded_of_row h.inv hg ha h₀]
        exact .inl ⟨hload, hearly.snoc ev⟩
      · by_cases htid : ev.tid = some (.lifecycle k)
        · -- the gap ends with the row
          obtain rfl := h.strikes_next hgap hs htid
          rw [← Option.some.inj ha] at hc
          exact absurd hid.symm ((Memory.row_withdrawClaim.mp hc).2 rfl)
        · have hres : ¬ ev.Resets (.lifecycle k) := by
            intro hres
            cases ev with
            | started u op | finished u op r => exact htid (congrArg some hres)
            | crashed =>
              rw [State.row, mem_crashed ha] at hc
              simp at hc
            | _ => exact hres
          right
          rw [hj, note_of_ne htid hres]
          exact hgap
    · -- its own goroutine has just been answered
      obtain rfl : u = .lifecycle k := h.released_row hf hs h₀ rfl
      right
      have htid : (.asked (.lifecycle k) (.release c₀.id token) (.ok ()) : Ev).tid =
          some (.lifecycle k) := rfl
      rw [hj, note_of_tid htid (fun hres => hres)]
      exact ⟨_, token, x.shared, rfl⟩
  · obtain hold | ⟨u, token, he⟩ := released_back ha hrel
    swap
    · cases he
    cases a with
    | load st now =>
      obtain ⟨hlive, rfl, -, -, hload, -⟩ := hg
      obtain ⟨c₀, at₀, hc₀, rfl⟩ := Memory.row_load hcr
      have hloaded : x'.shared.ledger.loaded = x.shared.ledger.loaded := by
        rw [← Option.some.inj ha]
        rfl
      rw [hloaded, hload]
      exact .inl ⟨StateFile.mem_rowIds.mpr ⟨k, c₀, hc₀, rfl⟩, (hsp.booting hlive _ hold).snoc _⟩
    | insertClaim key pod c₀ =>
      obtain ⟨rfl, rfl⟩ := hcr
      obtain ⟨-, -, -, -, -, res, now, hres, rfl, -⟩ := hg
      exact absurd (h.inv.releasedSent hold) (h.inv.hand hres).2.2.1
    | _ => exact hcr.elim

theorem Spent.booting_step (h : Runs cfg file tr x) (hsp : Spent cfg file tr x.shared)
    (hs : Step (machine cfg) x ev x') (hb : x'.shared.phase = .booting)
    (hid : id ∈ x'.shared.ledger.released) : ReleasedEarlier (tr ++ [ev]) id := by
  obtain ⟨hg, ha⟩ := h.next hs
  obtain hph | ⟨rfl, -⟩ | ⟨op, -, hup⟩ | ⟨-, hdown⟩ := (effect ha).phase
  · rw [hph] at hb
    obtain hold | ⟨u, token, rfl⟩ := released_back ha hid
    · exact (hsp.booting hb id hold).snoc ev
    · -- `New` releases nothing
      obtain ⟨op, hop, hmay⟩ := h.mayAsk hs
      obtain ⟨-, rfl⟩ | hm := h.mayCall hop
      · cases hmay.not_releases rfl
      · obtain ⟨rfl, -⟩ | ⟨-, hup⟩ := hg.up_or_booting ha rfl
        · cases hm
        · rw [hb] at hup
          cases hup
  · obtain hold | ⟨u, token, he⟩ := released_back ha hid
    · obtain ⟨u, token, hmem⟩ := h.released_answered.mp hold
      exact ⟨tr, [], u, token, rfl, hmem⟩
    · cases he
  · rw [hup] at hb
    cases hb
  · rw [hdown] at hb
    cases hb

theorem Spent.vouched_step (hlive : ListsUnreleased (tr ++ [ev])) (hsp : Spent cfg file tr x.shared)
    (hs : Step (machine cfg) x ev x') (hid : id ∈ x'.shared.ledger.vouched) :
    ¬ ReleasedEarlier (tr ++ [ev]) id := by
  intro hearly
  have ha : apply ev x.shared = some x'.shared := Step.apply hs
  obtain hbefore | rfl := hearly.back
  · obtain hold | ⟨t, listed, rfl, hmem⟩ := (effect ha).vouched_new hid
    · exact hsp.vouched id hold hbefore
    · exact hlive tr t listed [] rfl id hmem hbefore
  · obtain ⟨-, -, -, -, he⟩ | ⟨hb, -⟩ := apply_started ha
    · rw [he] at hid
      exact absurd hid (Finset.notMem_empty _)
    · exact absurd rfl hb

/-- **Where a released id can still be**, along every run. -/
theorem Runs.spent (h : Runs cfg file tr x) (hf : file.content.Distinct)
    (hlive : ListsUnreleased tr) :
    Spent cfg file tr x.shared := by
  induction h with
  | nil =>
    refine ⟨fun hc => ?_, fun hb => ?_, fun id hid => absurd hid (Finset.notMem_empty _)⟩
    · simp [State.row, State.initial] at hc
    · cases hb
  | @snoc tr x ev x' h hs ih =>
    have hsp := ih hlive.left
    exact ⟨fun hc hrel => hsp.rows_step h hf hs hc hrel, fun hb id hid =>
      hsp.booting_step h hs hb hid,
      fun id hid => hsp.vouched_step hlive hs hid⟩

/-- A settled row with a released id is in the gap. -/
theorem Spent.gap (hsp : Spent cfg file tr s) (hi : Inv cfg s) (hl : cfg.lister)
    (hup : s.phase = .up) (hc : s.mem.claimFor k = some c) (hrel : c.id ∈ s.ledger.released) :
    JustReleased (.lifecycle k) c.id (journal cfg file (.lifecycle k) tr) := by
  obtain ⟨hset, hrow⟩ := Memory.claimFor_eq_some.mp hc
  obtain ⟨hload, hearly⟩ | hgap := hsp.rows hrow hrel
  · exact absurd hearly (hsp.vouched _ (hi.vouched hl hup hrow hset hload))
  · exact hgap

/-- Nor does its goroutine do anything but strike it off. -/
theorem Runs.not_gap (h : Runs cfg file tr x) (hl : cfg.lister) (hf : file.content.Distinct)
    (hlive : ListsUnreleased tr) (hs : Step (machine cfg) x ev x')
    (htid : ev.tid = some (.lifecycle k))
    (hev : ∀ id, ev ≠ .locked (.lifecycle k) (.withdrawClaim k id)) (hup : x.shared.phase = .up)
    (hc : x.shared.mem.claimFor k = some c) : c.id ∉ x.shared.ledger.released := fun hrel =>
  hev c.id (h.strikes_next ((h.spent hf hlive).gap h.inv hl hup hc hrel) hs htid)

/-- **A sandbox whose `Release` has returned nil is not used again**, by this process or a later
one: no Pod is bound to it, its row is not notified Running, and if a status still shows it, the
queue of its key has just been told and has not moved since. -/
theorem released_never_reused (h : Runs cfg file tr x) (hl : cfg.lister)
    (hf : file.content.Distinct) (hlive : ListsUnreleased tr) :
    (∀ tr₁ ev tr₂ x₁ x₂, tr = tr₁ ++ ev :: tr₂ → Runs cfg file tr₁ x₁ →
      Step (machine cfg) x₁ ev x₂ →
      (∀ b, Binds ev x₁.shared b → ∀ u token, .asked u (.release b.id token) (.ok ()) ∉ tr₁) ∧
      ∀ t pod id, ev = .asked t (.notify pod) () → runningEntry pod = some (pod.key, id) →
        x₁.shared.row pod.key ≠ none → ∀ u token, .asked u (.release id token) (.ok ()) ∉ tr₁) ∧
    ∀ k c u token, x.shared.phase = .up → x.shared.mem.claimFor k = some c →
      .asked u (.release c.id token) (.ok ()) ∈ tr →
      ∃ tr₁ token' tr₂, tr = tr₁ ++ .asked (.lifecycle k) (.release c.id token') (.ok ()) :: tr₂ ∧
        ∀ ev ∈ tr₂, ev.tid ≠ some (.lifecycle k) := by
  refine ⟨?_, ?_⟩
  · rintro tr₁ ev tr₂ x₁ x₂ rfl h₁ hs
    obtain ⟨hg, ha⟩ := h₁.next hs
    refine ⟨fun b hb u token hmem => ?_, ?_⟩
    · have hrel := h₁.released_answered.mpr ⟨u, token, hmem⟩
      cases hb with
      | @adopt c he hrow hset had hid =>
        subst he
        have hc : x₁.shared.mem.claimFor b.key = some c := Memory.claimFor_eq_some.mpr ⟨hset, hrow⟩
        rw [← hid] at hrel
        exact h₁.not_gap hl hf hlive.left hs rfl (fun id he => by cases he) hg.1 hc hrel
      | @insert res now he hres hid =>
        rw [← hid] at hrel
        exact (h₁.inv.hand hres).2.2.1 (h₁.inv.releasedSent hrel)
    · rintro t pod id rfl hentry hrow u token hmem
      have hrel := h₁.released_answered.mpr ⟨u, token, hmem⟩
      have hphase : pod.status.phase = .running := by
        simp only [runningEntry] at hentry
        split at hentry
        · assumption
        · cases hentry
      obtain ⟨id', hentry', hrun⟩ := hg.2.2.1 hphase
      cases hentry.symm.trans hentry'
      obtain rfl := hrun.thread
      obtain ⟨c, hc, rfl⟩ | ⟨hnone, -⟩ := hrun.held
      · exact h₁.not_gap hl hf hlive.left hs rfl (fun id he => by cases he) hg.1 hc hrel
      · exact hrow hnone
  · rintro k c u token hup hc hmem
    have hrel := h.released_answered.mpr ⟨u, token, hmem⟩
    obtain ⟨l, token', s, hl⟩ := (h.spent hf hlive).gap h.inv hl hup hc hrel
    obtain ⟨tr₁, tr₂, x₁, x₂, rfl, -, -, -, -, -, -, hquiet⟩ := h.last_entry hl
    exact ⟨tr₁, token', tr₂, rfl, hquiet⟩

/-- The row an event inserts. -/
def insertedRow : Ev → Option (Key × String)
  | .locked _ (.insertClaim key _ c) => some (key, c.id)
  | _ => none

instance (ev : Ev) (e : Key × String) : Decidable (insertedRow ev = some e) :=
  inferInstanceAs (Decidable ((_ : Option (Key × String)) = _))

theorem insertedRow_eq_some (h : insertedRow ev = some (k, id)) :
    ∃ t pod c, ev = .locked t (.insertClaim k pod c) ∧ c.id = id := by
  cases ev with
  | locked t a =>
    cases a with
    | insertClaim key pod c => cases h; exact ⟨t, pod, c, rfl, rfl⟩
    | _ => cases h
  | _ => cases h

/-- The id a nil reply releases. -/
def releasedBy : Ev → Option String
  | .asked _ (.release id _) (.ok _) => some id
  | _ => none

theorem releasedBy_eq_some (h : releasedBy ev = some id) :
    ∃ t token, ev = .asked t (.release id token) (.ok ()) := by
  cases ev with
  | asked t e r =>
    cases e with
    | release id' token =>
      cases r with
      | error err => cases h
      | ok u => cases h; exact ⟨t, token, rfl⟩
    | _ => cases h
  | _ => cases h

/-- A listing, if it is one, is empty. -/
def listsNothing : Ev → Bool
  | .asked _ .sandboxes (.ok listed) => listed.isEmpty
  | _ => true

theorem ListsUnreleased.of_listsNothing (h : tr.all listsNothing = true) : ListsUnreleased tr := by
  rintro tr₁ t listed tr₂ rfl id hid
  have hev := List.all_eq_true.mp h (.asked t .sandboxes (.ok listed)) (by simp)
  have hempty : listed = [] := List.isEmpty_iff.mp hev
  rw [hempty] at hid
  cases hid

/-- A crash between the nil reply and the next step: the next process loads the row, finds it
unlisted, and binds the new Pod to another sandbox. -/
theorem released_never_reused_across_crash : ∃ tr x ev x' b,
    Runs fullConfig .absent tr x ∧ Step (machine fullConfig) x ev x' ∧
    (∃ u token, .asked u (.release "s1" token) (.ok ()) ∈ tr) ∧ .crashed ∈ tr ∧
    Binds ev x.shared b ∧ b.key = "ns/p" ∧ b.id ≠ "s1" := by
  obtain ⟨tr, x, ev, x', hrun, hstep, hcrash, hrel, hlists, hins⟩ := exists_step fullConfig .absent
    (call .boot .new 10 {} ++
      call (.lifecycle "ns/p") (.createPod (samplePod "p" "u1" [])) 17
        { claimed := .ok (sampleResult "s1") } ++
      call (.lifecycle "ns/p") (.deletePod (samplePod "p" "u1" [])) 4 {} ++
      .crash :: call .boot .new 15
        { file := .decoded (sampleFile "ns/p" (sampleClaim "s1" (samplePod "p" "u1" []))) } ++
      call (.lifecycle "ns/p") (.createPod (samplePod "p" "u2" [])) 7
        { claimed := .ok (sampleResult "s2") })
    (.move (.lifecycle "ns/p") (World.reply {}))
    (fun tr _ ev => tr.any isCrash = true ∧ tr.any (releasedBy · = some "s1") = true ∧
      (tr ++ [ev]).all listsNothing = true ∧ insertedRow ev = some ("ns/p", "s2"))
    (by decide +kernel)
  obtain ⟨ev₁, hev₁, he₁⟩ := List.any_eq_true.mp hcrash
  obtain rfl := isCrash_eq_true he₁
  obtain ⟨ev₂, hev₂, he₂⟩ := List.any_eq_true.mp hrel
  obtain ⟨u, token, rfl⟩ := releasedBy_eq_some (of_decide_eq_true he₂)
  obtain ⟨t, pod, c, rfl, hid⟩ := insertedRow_eq_some hins
  obtain ⟨-, rfl, -, -, -, res, now, hres, rfl, -⟩ := (hrun.next hstep).1
  have hb : Binds (.locked (.lifecycle "ns/p") (.insertClaim "ns/p" pod (.ofResult res pod now)))
      x.shared ⟨"ns/p", res.id, pod, 0, 0⟩ := .insert rfl hres rfl
  have hnew := (released_never_reused (hrun.snoc hstep) rfl StateFile.distinct_empty
    (.of_listsNothing hlists)).1 tr _ [] x x' rfl hrun hstep
  refine ⟨tr, x, _, x', _, hrun, hstep, ⟨u, token, hev₂⟩, hev₁, hb, rfl, ?_⟩
  intro he
  have hfresh := hnew.1 _ hb u token
  rw [he] at hfresh
  exact hfresh hev₂

end Runs

end VkSandbox
