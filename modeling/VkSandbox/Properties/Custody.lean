import VkSandbox.Properties.Conservation
import VkSandbox.Properties.Durability
import Mathlib.Logic.Relation

/-!
# Properties/Custody — the life of a credential, crashes included

What the provider is for, seen from one sandbox: from the answer of `Claim` on somebody holds its
credential, until the sandbox is finished.

    Claim ─▸ hand k ─record─▸ tentative k ─commit─▸ safe ◂── the first state file
               │                  │                  │
               ├──────────────────┼────── gone ──────┴──▸ finished
               └──────────────────┴── crash ──▸ lost

`Life.Move` is this diagram, and `credential_life` that every run of the provider is a walk in it
for every credential.  The only way out of custody is a crash between the answer of `Claim` and the
rename that puts the row in the state file.
-/

namespace VkSandbox

open Interleave

/-! ## The diagram -/

/-- Where a credential stands. -/
inductive Life where
  /-- `CreatePod` of this key has the answer and has not recorded it. -/
  | hand (k : Key)
  /-- Recorded, and not yet committed. -/
  | tentative (k : Key)
  /-- In the state file, and in the tables of a running provider. -/
  | safe
  /-- Released, or missing from a listing. -/
  | finished
  /-- A crash came before the commit. -/
  | lost
  deriving DecidableEq

/-- **The life of a credential.** -/
inductive Life.Move : Life → Life → Prop where
  | record (k : Key) : Move (.hand k) (.tentative k)
  | commit (k : Key) : Move (.tentative k) .safe
  | gone (a : Life) : a ≠ .lost → Move a .finished
  | crashHand (k : Key) : Move (.hand k) .lost
  | crashTentative (k : Key) : Move (.tentative k) .lost

/-! ## Where a credential stands in a state -/

variable {cfg : Config} {file : File} {tr : List Ev} {s s' : State} {k : Key} {c : Claim} {ev : Ev}
  {cr : Credential}
  {x x' : Interleave.Config State Memory Section Request Reply Tid Op Outcome}

/-- The queue of `k` has the credential, and nothing durable does. -/
def State.Uncommitted (s : State) (k : Key) (cr : Credential) : Prop :=
  s.credAt (.hand k) = some cr ∨ k ∈ s.mem.tentative ∧ s.credAt (.row k) = some cr

/-- **A crash came between the answer of `Claim` and the commit**: the queue of some key had the
credential and the file did not. -/
def LostInCrash (cfg : Config) (file : File) (tr : List Ev) (cr : Credential) : Prop :=
  ∃ tr₁ tr₂ x₁ k, tr = tr₁ ++ .crashed :: tr₂ ∧ Runs cfg file tr₁ x₁ ∧ x₁.shared.Uncommitted k cr ∧
    ¬ x₁.shared.content.Holds cr

/-- **What a place in the diagram means.** -/
def Life.At (cfg : Config) (file : File) (tr : List Ev) (s : State) (cr : Credential) : Life → Prop
  | .hand k => s.credAt (.hand k) = some cr
  | .tentative k => k ∈ s.mem.tentative ∧ s.credAt (.row k) = some cr
  | .safe => s.Safe cr
  | .finished => s.Finished cr.id
  | .lost => LostInCrash cfg file tr cr

theorem LostInCrash.snoc (h : LostInCrash cfg file tr cr) (ev : Ev) :
    LostInCrash cfg file (tr ++ [ev]) cr := by
  obtain ⟨tr₁, tr₂, x₁, k, rfl, hlost⟩ := h
  exact ⟨tr₁, tr₂ ++ [ev], x₁, k, by simp, hlost⟩

/-- What a crash does to a credential that only a queue had. -/
theorem Runs.crash_uncommitted (h : Runs cfg file tr x) (ha : apply .crashed x.shared = some s')
    (hun : x.shared.Uncommitted k cr) :
    s'.Safe cr ∨ LostInCrash cfg file (tr ++ [.crashed]) cr := by
  by_cases hfile : x.shared.content.Holds cr
  · -- the rename had landed, and only the marker was left to clear
    refine .inl ⟨?_, fun hup => ?_⟩
    · obtain ⟨hf, -⟩ | ⟨t, u, d, he, -⟩ := (effect ha).file
      · rw [State.content, hf]
        exact hfile
      · cases he
    · simp only [apply] at ha
      split at ha
      · cases ha
      · cases ha
        cases hup
  · exact .inr ⟨tr, [], x, k, rfl, h, hun, hfile⟩

/-- A process that ends without a crash has nothing in hand and nothing tentative. -/
theorem Inv.not_uncommitted (hi : Inv cfg s) (hp : s.phase ≠ .up) : ¬ s.Uncommitted k cr := by
  rintro (hh | ⟨ht, -⟩)
  · obtain ⟨res, hres, -⟩ := Option.map_eq_some_iff.mp hh
    exact hp (hi.hand hres).1
  · rw [hi.booting hp] at ht
    exact absurd ht (Finset.notMem_empty _)

/-- What a section does with an answer in hand. -/
theorem SectionGuard.hand_next {t : Tid} {a : Section} (hg : SectionGuard cfg s t a)
    (hh : s.credAt (.hand k) = some cr) :
    (s.entered a).credAt (.hand k) = some cr ∨
      k ∈ (s.entered a).mem.tentative ∧ (s.entered a).credAt (.row k) = some cr := by
  obtain ⟨res, hres, rfl⟩ := Option.map_eq_some_iff.mp hh
  obtain heq | ⟨-, pod, c, rfl⟩ :=
    Ledger.inHand_progressAfter (a := a) (s := s) (l := s.ledger) (k := k)
  · exact .inl (Option.map_eq_some_iff.mpr ⟨res, heq.trans hres, rfl⟩)
  · obtain ⟨-, -, -, -, res', now, hres', rfl, -⟩ := hg
    obtain rfl : res' = res := Option.some.inj (hres'.symm.trans hres)
    exact .inr ⟨Finset.mem_insert_self _ _, Option.map_eq_some_iff.mpr
      ⟨_, Memory.row_insertClaim.mpr (.inl ⟨rfl, rfl⟩), rfl⟩⟩

/-- What a section does with a tentative row: leaves it, commits it, or ends it once released. -/
theorem SectionGuard.tentative_next {t : Tid} {a : Section} (hsp : cfg.statePath) (hi : Inv cfg s)
    (hg : SectionGuard cfg s t a) (ht : k ∈ s.mem.tentative) (hc : s.credAt (.row k) = some cr) :
    (k ∈ (s.entered a).mem.tentative ∧ (s.entered a).credAt (.row k) = some cr) ∨
      (s.entered a).Safe cr ∨ s.Finished cr.id := by
  obtain ⟨c, hrow, rfl⟩ := Option.map_eq_some_iff.mp hc
  have hset : s.mem.settled k ≠ true := fun hs => (Memory.settled_eq_true.mp hs).1 ht
  obtain ⟨c', hc', hsame⟩ | hend := hg.forward hrow
  · obtain ht' | ⟨id, rfl⟩ | rfl := Section.tentative_forward (a := a) ht
    · exact .inl ⟨ht', Option.map_eq_some_iff.mpr ⟨c', hc', hsame.cred⟩⟩
    · exact absurd (hsame.id.trans (hg.2.2.1 c hrow)) ((Memory.row_withdrawClaim.mp hc').2 rfl)
    · obtain ⟨-, -, -, c₀, hc₀, -, hfile, -⟩ := hg
      obtain rfl : c₀ = c := Option.some.inj (hc₀.symm.trans hrow)
      refine .inr (.inl
        ⟨.inl ⟨k, c₀.marshal, hfile hsp, rfl⟩, fun _ => Memory.holds_durable.mpr ?_⟩)
      exact .inl ⟨k, c₀, hrow, Finset.notMem_erase k _, rfl⟩
  · cases hend with
    | unlisted _ _ _ hm => exact .inr (.inr (.inr (hi.missed hm)))
    | dropped _ _ hs => exact absurd hs hset
    | superseded _ _ hs => exact absurd hs hset
    | withdrawn _ _ hr => exact .inr (.inr (.inl hr))
    | rechecked _ _ _ hs => exact absurd hs hset

/-- An event that is neither a section nor an end leaves the hands and the rows alone. -/
theorem Runs.credAt_quiet (h : Runs cfg file tr x) (hs : Step (machine cfg) x ev x')
    (hlock : ∀ t a, ev ≠ .locked t a) (hend : ¬ EndsProcess ev) {p : Place}
    (hp : x.shared.credAt p = some cr) : x'.shared.credAt p = some cr ∧
      x'.shared.mem = x.shared.mem := by
  obtain ⟨hg, happ⟩ := h.next hs
  obtain ⟨hm, -⟩ | ⟨t, a, he, -⟩ | ⟨he, -⟩ := (effect happ).tables
  · exact ⟨(effect happ).credAt h.inv hg hm hlock hend hp, hm⟩
  · exact absurd he (hlock t a)
  · exact absurd he hend

theorem Life.At.step_hand (h : Runs cfg file tr x) (ha : (Life.hand k).At cfg file tr x.shared cr)
    (hs : Step (machine cfg) x ev x') :
    ∃ b, b.At cfg file (tr ++ [ev]) x'.shared cr ∧ (b = .hand k ∨ Life.Move (.hand k) b) := by
  obtain ⟨hg, happ⟩ := h.next hs
  by_cases hend : EndsProcess ev
  · by_cases hc : ev = .crashed
    · subst hc
      refine ⟨.lost, ⟨tr, [], x, k, rfl, h, .inl ha, fun hfile => ?_⟩, .inr (.crashHand k)⟩
      -- an answer in hand has never been filed
      obtain ⟨res, hres, rfl⟩ := Option.map_eq_some_iff.mp ha
      exact (h.inv.hand hres).2.2.2.1 (h.inv.filed (StateFile.mem_ids.mpr ⟨_, hfile, rfl⟩))
    · have hb : x.shared.phase ≠ .up := by rw [booting_of_ends hend hg hc]; decide
      exact absurd (.inl ha) (h.inv.not_uncommitted hb)
  · by_cases hlock : ∃ t a, ev = .locked t a
    · obtain ⟨t, a, rfl⟩ := hlock
      rw [← Option.some.inj happ]
      obtain hh | ht := hg.2.hand_next ha
      · exact ⟨.hand k, hh, .inl rfl⟩
      · exact ⟨.tentative k, ht, .inr (.record k)⟩
    · exact ⟨.hand k, (h.credAt_quiet hs (fun t a he => hlock ⟨t, a, he⟩) hend ha).1, .inl rfl⟩

theorem Life.At.step_tentative (h : Runs cfg file tr x) (hsp : cfg.statePath)
    (ha : (Life.tentative k).At cfg file tr x.shared cr) (hs : Step (machine cfg) x ev x') :
    ∃ b, b.At cfg file (tr ++ [ev]) x'.shared cr ∧
      (b = .tentative k ∨ Life.Move (.tentative k) b) := by
  obtain ⟨hg, happ⟩ := h.next hs
  by_cases hend : EndsProcess ev
  · by_cases hc : ev = .crashed
    · subst hc
      obtain hsafe | hlost := h.crash_uncommitted happ (.inr ha)
      · exact ⟨.safe, hsafe, .inr (.commit k)⟩
      · exact ⟨.lost, hlost, .inr (.crashTentative k)⟩
    · have hb : x.shared.phase ≠ .up := by rw [booting_of_ends hend hg hc]; decide
      exact absurd (.inr ha) (h.inv.not_uncommitted hb)
  · by_cases hlock : ∃ t a, ev = .locked t a
    · obtain ⟨t, a, rfl⟩ := hlock
      have hfin : x.shared.Finished cr.id → x'.shared.Finished cr.id := (effect happ).finished_mono
      rw [← Option.some.inj happ] at hfin ⊢
      obtain ht | hsafe | hf := hg.2.tentative_next hsp h.inv ha.1 ha.2
      · exact ⟨.tentative k, ht, .inl rfl⟩
      · exact ⟨.safe, hsafe, .inr (.commit k)⟩
      · exact ⟨.finished, hfin hf, .inr (.gone _ fun he => by cases he)⟩
    · obtain ⟨hc, hm⟩ := h.credAt_quiet hs (fun t a he => hlock ⟨t, a, he⟩) hend ha.2
      exact ⟨.tentative k, ⟨by rw [hm]; exact ha.1, hc⟩, .inl rfl⟩

/-- **One event, one credential**: it stays where it is, or takes a step of the diagram. -/
theorem Life.At.step {a : Life} (h : Runs cfg file tr x) (hl : cfg.lister) (hsp : cfg.statePath)
    (ha : a.At cfg file tr x.shared cr) (hs : Step (machine cfg) x ev x') :
    ∃ b, b.At cfg file (tr ++ [ev]) x'.shared cr ∧ (b = a ∨ Life.Move a b) := by
  obtain ⟨hg, happ⟩ := h.next hs
  cases a with
  | hand k => exact Life.At.step_hand h ha hs
  | tentative k => exact Life.At.step_tentative h hsp ha hs
  | safe =>
    obtain hsafe | hf | ⟨hno, -⟩ := State.Safe.step hsp h.inv hg happ ha
    · exact ⟨.safe, hsafe, .inl rfl⟩
    · exact ⟨.finished, hf, .inr (.gone _ fun he => by cases he)⟩
    · rw [hl] at hno
      cases hno
  | finished => exact ⟨.finished, (effect happ).finished_mono ha, .inl rfl⟩
  | lost => exact ⟨.lost, ha.snoc ev, .inl rfl⟩

/-- **From any state on**, a credential walks in the diagram. -/
theorem Life.At.run {a : Life} (h : Runs cfg file tr x) (hl : cfg.lister) (hsp : cfg.statePath)
    (ha : a.At cfg file tr x.shared cr) {tr' : List Ev} (h' : Run (machine cfg) x tr' x') :
    ∃ b, Relation.ReflTransGen Life.Move a b ∧ b.At cfg file (tr ++ tr') x'.shared cr := by
  induction h' with
  | nil => exact ⟨a, .refl, by rwa [List.append_nil]⟩
  | @snoc tr' y ev y' h' hs ih =>
    obtain ⟨b, hmoves, hb⟩ := ih
    obtain ⟨b', hb', hnext⟩ := hb.step (Run.append h h') hl hsp hs
    rw [List.append_assoc] at hb'
    obtain rfl | hmove := hnext
    · exact ⟨b', hmoves, hb'⟩
    · exact ⟨b', hmoves.tail hmove, hb'⟩

/-! ## The whole life -/

/-- Where a life begins: the first state file has the credential, or `Claim` answers for some
key. -/
def Life.Begins (file : File) (s : State) (cr : Credential) : Life → Prop
  | .safe => file.content.Holds cr
  | .hand k => (cr.id, k) ∈ s.ledger.claimedFor
  | _ => False

/-- **The life of every credential, crashes and restarts included, is a walk in the diagram.**  From
where it began it has come to where it is; and from any state of a run to any later one it walks on
from any place it has.  So in a running provider each issued credential is in the tables or in the
hand of a `CreatePod`, or its sandbox is finished, or a crash came before its commit; and nothing
else is ever lost. -/
theorem credential_life (h : Runs cfg file tr x) (hl : cfg.lister) (hsp : cfg.statePath)
    (hcr : cr ∈ x.shared.ledger.issued) :
    (∃ a b, a.Begins file x.shared cr ∧ Relation.ReflTransGen Life.Move a b ∧
      b.At cfg file tr x.shared cr ∧
        (x.shared.phase = .up → b = .safe → x.shared.mem.all.Holds cr)) ∧
    ∀ (a : Life) tr' y, a.At cfg file tr x.shared cr → Run (machine cfg) x tr' y →
      ∃ b, Relation.ReflTransGen Life.Move a b ∧ b.At cfg file (tr ++ tr') y.shared cr := by
  refine ⟨?_, fun a tr' y ha h' => ha.run h hl hsp h'⟩
  suffices hwalk : ∃ a b, a.Begins file x.shared cr ∧ Relation.ReflTransGen Life.Move a b ∧
      b.At cfg file tr x.shared cr by
    obtain ⟨a, b, hbegin, hmoves, hat⟩ := hwalk
    refine ⟨a, b, hbegin, hmoves, hat, ?_⟩
    rintro hup rfl
    exact Memory.holds_of_snapshot (hat.2 hup)
  induction h with
  | nil =>
    have hfile : file.content.Holds cr := StateFile.mem_creds.mp hcr
    exact ⟨.safe, .safe, hfile, .refl, hfile, fun hup => by cases hup⟩
  | @snoc tr x ev x' h hs ih =>
    have hrun : Runs cfg file tr x := h
    have happ : apply ev x.shared = some x'.shared := Step.apply hs
    obtain hold | ⟨t, spec, res, rfl, rfl, hnew⟩ := (effect happ).issued_new hcr
    · obtain ⟨a, b, hbegin, hmoves, hat⟩ := ih hold
      obtain ⟨b', hat', hnext⟩ := hat.step hrun hl hsp hs
      refine ⟨a, b', ?_, ?_, hat'⟩
      · cases a with
        | safe => exact hbegin
        | hand k => exact (effect happ).claimedFor hbegin
        | _ => exact hbegin.elim
      · obtain rfl | hmove := hnext
        · exact hmoves
        · exact hmoves.tail hmove
    · have hx : x'.shared = x.shared.record fun l =>
          { l with
            issued := insert ⟨res.id, res.token⟩ l.issued
            claimedFor := insert (res.id, spec.claimRef) l.claimedFor
            progress := Function.update l.progress spec.claimRef
              { l.progress spec.claimRef with inHand := some res } } := by
        simp only [apply, answer, if_neg hnew] at happ
        exact (Option.some.inj happ).symm
      refine ⟨.hand spec.claimRef, .hand spec.claimRef, ?_, .refl, ?_⟩
      · rw [hx]
        exact Finset.mem_insert_self _ _
      · rw [hx]
        simp [Life.At, State.credAt, State.record]

/-- A crash while `CreatePod` has the answer in hand: nothing durable has it, and it is lost. -/
theorem credential_life_of_crash : ∃ tr x, Runs fullConfig .absent tr x ∧
    ⟨"s1", "token-s1"⟩ ∈ x.shared.ledger.issued ∧
    LostInCrash fullConfig .absent tr ⟨"s1", "token-s1"⟩ := by
  obtain ⟨tr, x, hrun, hissued, hdown, hrel, hlack, hfiled⟩ := exists_run fullConfig .absent
    (call .boot .new 10 {} ++ call (.lifecycle "ns/p") (.createPod (samplePod "p" "u1" [])) 6
        { claimed := .ok (sampleResult "s1") } ++ [.crash])
    (fun _ s => (⟨"s1", "token-s1"⟩ : Credential) ∈ s.ledger.issued ∧ s.phase = .down ∧
      "s1" ∉ s.ledger.released ∧ "s1" ∉ s.ledger.lacked ∧ "s1" ∉ s.ledger.filed)
    (by decide +kernel)
  obtain ⟨⟨a, b, -, -, hat, -⟩, -⟩ := credential_life hrun rfl rfl hissued
  have hup : x.shared.phase ≠ .up := by rw [hdown]; decide
  refine ⟨tr, x, hrun, hissued, ?_⟩
  cases b with
  | hand k => exact absurd (.inl hat) (hrun.inv.not_uncommitted hup)
  | tentative k => exact absurd (.inr hat) (hrun.inv.not_uncommitted hup)
  | safe => exact absurd (hrun.inv.filed (StateFile.mem_ids.mpr ⟨_, hat.1, rfl⟩)) hfiled
  | finished => exact absurd hat (not_or.mpr ⟨hrel, hlack⟩)
  | lost => exact hat

end VkSandbox
