import VkSandbox.Provider.Journals

/-!
# Provider/Creates — the text of `CreatePod`

What a `CreatePod` has seen before it does what it does:

    settle        its row was quarantined
    dropClaim     the claim was settled and expired, and the node, if asked, lacks it
    adopt         nothing but the two above, and a new deadline
    release       its row was tentative: a claim that never reached the disk
    sendClaim     nothing to adopt

Once the `Claim` is sent, the text says no more: from there on the call deals with its own sandbox.
-/

namespace VkSandbox

open Interleave Interleave.Prog

variable {cfg : Config} {t : Tid} {l : List Entry} {pod : Pod} {k : Key} {id : String}

/-- The call has sent a `Claim`. -/
def Claims (l : List Entry) : Prop :=
  ∃ t spec s, ((.asked t (.sendClaim spec) (), s) : Entry) ∈ l

/-- The call has found its row quarantined. -/
def SawQuarantined (t : Tid) (l : List Entry) (k : Key) : Prop :=
  ∃ s, ((.read t, s) : Entry) ∈ l ∧ k ∈ s.mem.quarantined

/-- The call has found its row tentative. -/
def SawStranded (t : Tid) (l : List Entry) (k : Key) (id : String) : Prop :=
  ∃ s c, ((.read t, s) : Entry) ∈ l ∧ k ∈ s.mem.tentative ∧ s.row k = some c ∧ c.id = id

/-- The call has found its claim past its deadline and, if it could, that the node lacks it. -/
def SawExpired (cfg : Config) (t : Tid) (l : List Entry) (k : Key) (id : String) : Prop :=
  ∃ s c now s', ((.read t, s) : Entry) ∈ l ∧ s.mem.claimFor k = some c ∧ c.id = id ∧
    ((.asked t .now now, s') : Entry) ∈ l ∧ c.expired now = true ∧
    (cfg.lister = true → ∃ listed s'', ((.asked t .sandboxes (.ok listed), s'') : Entry) ∈ l ∧
      id ∉ listedIds listed)

/-- The call has found nothing to adopt. -/
def SawNothing (t : Tid) (l : List Entry) (pod : Pod) : Prop :=
  ∃ s, ((.locked t (.adoptExistingClaim pod.key pod), s) : Entry) ∈ l ∧
    s.mem.adopted pod.key pod = none

/-- The call has adopted its row. -/
def SawAdoptable (t : Tid) (l : List Entry) (pod : Pod) : Prop :=
  ∃ s c, ((.locked t (.adoptExistingClaim pod.key pod), s) : Entry) ∈ l ∧
    s.mem.adopted pod.key pod = some c

/-- An event before the adoption: of a row it changes the deadline at most, or ends it. -/
def Preliminary : Ev → Bool
  | .locked _ (.settle _ _) | .locked _ (.dropClaim _ _)
  | .locked _ (.refreshDeadline _ _ _) => true
  | .locked _ _ => false
  | .asked _ e _ =>
    match e with
    | .sendClaim _ | .sendRelease _ _ => false
    | _ => true
  | _ => true

/-- **The text of `CreatePod`**, up to its `Claim`. -/
def CreateText (cfg : Config) (pod : Pod) (l : List Entry) (ev : Ev) (_ : State) : Prop :=
  Claims l ∨
  match ev with
  | .locked t a =>
    match a with
    | .settle _ _ => SawQuarantined t l pod.key
    | .dropClaim key id => key = pod.key ∧ SawExpired cfg t l key id
    | .refreshDeadline _ _ _ => True
    | .adoptExistingClaim key p => key = pod.key ∧ p = pod ∧ ∀ e ∈ l, Preliminary e.1 = true
    | .withdrawClaim key id => key = pod.key ∧ SawStranded t l key id
    | _ => False
  | .asked t e _ =>
    match e with
    | .sendRelease id _ => SawStranded t l pod.key id
    | .sendClaim _ => SawNothing t l pod
    | _ => True
  | _ => True

/-- An error that a Pod's annotations are the cause of. -/
def ProviderError.OfAnnotations : ProviderError → Bool
  | .wrongRuntime _ _ | .invalidTTL _ _ | .missingTemplate _ => true
  | _ => false

/-- **What a `CreatePod` returns with**: nil after an adoption or a claim; a complaint about the
annotations before any claim, and about the runtime before anything at all. -/
def CreateDone (t : Tid) (pod : Pod) (l : List Entry) : Except ProviderError Unit → Prop
  | .ok () => SawAdoptable t l pod ∨ Claims l
  | .error err => (err.OfAnnotations = true → ¬ Claims l) ∧
      ∀ key rt, err = .wrongRuntime key rt → l = []

theorem Claims.mono {l' : List Entry} (h : Claims l) (hl : l ⊆ l') : Claims l' := by
  obtain ⟨t, spec, s, hm⟩ := h
  exact ⟨t, spec, s, hl hm⟩

theorem SawNothing.mono {l' : List Entry} (h : SawNothing t l pod) (hl : l ⊆ l') :
    SawNothing t l' pod := by
  obtain ⟨s, hm, hn⟩ := h
  exact ⟨s, hl hm, hn⟩

theorem not_claims_of_preliminary (h : ∀ e ∈ l, Preliminary e.1 = true) : ¬ Claims l := by
  rintro ⟨t, spec, s, hm⟩
  cases h _ hm

theorem preliminary_snoc {e : Entry} (h : ∀ e ∈ l, Preliminary e.1 = true)
    (he : Preliminary e.1 = true) : ∀ e' ∈ l ++ [e], Preliminary e'.1 = true := by
  intro e' he'
  rcases List.mem_append.mp he' with he' | he'
  · exact h e' he'
  · rw [List.mem_singleton.mp he']
    exact he

/-- **Once the `Claim` is sent anything goes.** -/
theorem free_of_claims {α : Type} {p : Code α} (h : Claims l) :
    Text cfg t (CreateText cfg pod) (fun l' _ => Claims l') p l :=
  Machine.Follows.free h (fun _ _ _ h => .inl h) fun _ _ h => h.mono (List.subset_append_left _ _)

/-! ## The steps of `CreatePod` -/

/-- What the steps before the adoption come to: only preliminary events, and no complaint about the
annotations. -/
def PreliminaryDone (l : List Entry) (r : Except ProviderError Unit) : Prop :=
  (∀ e ∈ l, Preliminary e.1 = true) ∧ ∀ err, r = .error err → err.OfAnnotations = false

theorem text_verify (hl : ∀ e ∈ l, Preliminary e.1 = true) (hq : SawQuarantined t l pod.key) :
    Text cfg t (CreateText cfg pod) (fun l' _ => ∀ e ∈ l', Preliminary e.1 = true)
      (verifyClaimsAgainstNode cfg) l := by
  unfold verifyClaimsAgainstNode
  split
  · exact hl
  refine Text.look fun s₁ => ⟨.inr trivial, ?_⟩
  have hl₁ := preliminary_snoc (e := (.read t, s₁)) hl rfl
  split
  · exact hl₁
  unfold sandboxes
  refine Text.request fun _ s₂ _ _ =>
    ⟨.inr trivial, Text.request fun r s₃ _ _ => ⟨.inr trivial, ?_⟩⟩
  have hl₂ := preliminary_snoc (e := (.asked t .sendList (), s₂)) hl₁ rfl
  have hl₃ := preliminary_snoc (e := (.asked t .sandboxes r, s₃)) hl₂ rfl
  cases r with
  | error err => exact hl₃
  | ok listed =>
    refine Text.enter fun s₄ => ⟨.inr ?_, preliminary_snoc hl₃ rfl⟩
    obtain ⟨s₀, hm, hq⟩ := hq
    exact ⟨s₀, by simp [hm], hq⟩

theorem text_resolve (hl : ∀ e ∈ l, Preliminary e.1 = true) :
    Text cfg t (CreateText cfg pod) PreliminaryDone (resolveUnverifiedClaim cfg pod.key) l := by
  unfold resolveUnverifiedClaim
  refine Text.look fun s => ⟨.inr trivial, ?_⟩
  have hl₁ := preliminary_snoc (e := (.read t, s)) hl rfl
  split
  · exact ⟨hl₁, nofun⟩
  next hq =>
  have hsaw : SawQuarantined t (l ++ [(.read t, s)]) pod.key :=
    ⟨s, by simp, by simpa using hq⟩
  refine Machine.Follows.call (text_verify hl₁ hsaw) fun l' ok hl' => ?_
  split
  · exact ⟨hl', nofun⟩
  · exact ⟨hl', fun err he => by cases he; rfl⟩

theorem text_settleExpired (hl : ∀ e ∈ l, Preliminary e.1 = true) :
    Text cfg t (CreateText cfg pod) PreliminaryDone (settleExpiredClaim cfg pod.key) l := by
  unfold settleExpiredClaim
  refine Text.look fun s => ⟨.inr trivial, ?_⟩
  have hl₁ := preliminary_snoc (e := (.read t, s)) hl rfl
  split
  · exact ⟨hl₁, nofun⟩
  next c hc =>
  refine Text.request fun now s₂ _ _ => ⟨.inr trivial, ?_⟩
  have hl₂ := preliminary_snoc (e := (.asked t .now now, s₂)) hl₁ rfl
  split
  · exact ⟨hl₂, nofun⟩
  next hexp =>
  have hexp : c.expired now = true := by simpa using hexp
  split
  · next hlister =>
    refine Text.enter fun s₃ => ⟨.inr ⟨rfl, s, c, now, s₂, by simp, hc, rfl, by simp, hexp, ?_⟩,
      preliminary_snoc hl₂ rfl, nofun⟩
    intro hy
    simp [hy] at hlister
  unfold sandboxes
  refine Text.request fun _ s₃ _ _ =>
    ⟨.inr trivial, Text.request fun r s₄ _ _ => ⟨.inr trivial, ?_⟩⟩
  have hl₃ := preliminary_snoc (e := (.asked t .sendList (), s₃)) hl₂ rfl
  have hl₄ := preliminary_snoc (e := (.asked t .sandboxes r, s₄)) hl₃ rfl
  cases r with
  | error err => exact ⟨hl₄, fun err he => by cases he; rfl⟩
  | ok listed =>
    dsimp only
    split
    · exact Text.enter fun s₅ => ⟨.inr trivial, preliminary_snoc hl₄ rfl, nofun⟩
    · next hfind =>
      refine Text.enter fun s₅ => ⟨.inr ⟨rfl, s, c, now, s₂, by simp, hc, rfl, by simp, hexp, ?_⟩,
        preliminary_snoc hl₄ rfl, nofun⟩
      refine fun _ => ⟨listed, s₄, by simp, fun hm => ?_⟩
      obtain ⟨row, hrow, hid⟩ := List.mem_map.mp hm
      have hne := List.find?_eq_none.mp hfind row hrow
      exact hne (decide_eq_true hid)

/-- A complaint that is not about the annotations. -/
theorem createDone_of_not_annotations {err : ProviderError} (h : err.OfAnnotations = false) :
    CreateDone t pod l (.error err) := by
  refine ⟨fun hy => ?_, ?_⟩
  · rw [h] at hy
    cases hy
  · rintro key rt rfl
    cases h

theorem text_recordClaim {res : ClaimResult} (h : Claims l) :
    Text cfg t (CreateText cfg pod) (CreateDone t pod) (recordClaim cfg pod res) l := by
  unfold recordClaim
  refine Machine.Follows.call (free_of_claims h) fun l₁ now h₁ => ?_
  refine Machine.Follows.call (free_of_claims h₁) fun l₂ _ h₂ => ?_
  refine Machine.Follows.call (free_of_claims h₂) fun l₃ r h₃ => ?_
  cases r with
  | error err =>
    unfold undoUnpersistedClaim
    refine Machine.Follows.call (free_of_claims h₃) fun l₄ r h₄ => ?_
    cases r with
    | error err' => exact createDone_of_not_annotations rfl
    | ok u =>
      exact Machine.Follows.call (free_of_claims h₄) fun l₅ _ _ => createDone_of_not_annotations rfl
  | ok u => exact Machine.Follows.call (free_of_claims h₃) fun l₄ _ h₄ => .inr h₄

theorem text_claimFresh (hno : ¬ Claims l) (hnone : SawNothing t l pod) :
    Text cfg t (CreateText cfg pod) (CreateDone t pod) (claimFresh cfg pod) l := by
  unfold claimFresh
  have hne : l ≠ [] := by
    rintro rfl
    obtain ⟨s, hm, -⟩ := hnone
    cases hm
  split
  · next err herr =>
    refine ⟨fun _ => hno, ?_⟩
    rintro key rt rfl
    simp only [claimSpec, claimTTL] at herr
    grind
  · next spec hspec =>
    unfold claim
    refine Text.request fun _ s₁ _ _ => ⟨.inr hnone, ?_⟩
    have hclaims : Claims (l ++ [(.asked t (.sendClaim spec) (), s₁)]) := ⟨t, spec, s₁, by simp⟩
    refine Text.request fun r s₂ _ _ => ⟨.inl hclaims, ?_⟩
    cases r with
    | error err => exact createDone_of_not_annotations rfl
    | ok res => exact text_recordClaim (hclaims.mono (List.subset_append_left _ _))

theorem not_claims_snoc {ev : Ev} {s : State} (h : ¬ Claims l)
    (hev : ∀ t spec, ev ≠ .asked t (.sendClaim spec) ()) : ¬ Claims (l ++ [(ev, s)]) := by
  rintro ⟨t, spec, s', hm⟩
  rcases List.mem_append.mp hm with hm | hm
  · exact h ⟨t, spec, s', hm⟩
  · cases List.mem_singleton.mp hm
    exact hev t spec rfl

/-- What the step between the adoption and the claim comes to. -/
def ClearDone (t : Tid) (pod : Pod) (l : List Entry) (r : Except ProviderError Unit) : Prop :=
  (∀ err, r = .error err → err.OfAnnotations = false) ∧ ¬ Claims l ∧ SawNothing t l pod

theorem text_clearStranded (hno : ¬ Claims l) (hnone : SawNothing t l pod) :
    Text cfg t (CreateText cfg pod) (ClearDone t pod) (clearStrandedClaim pod.key) l := by
  have hkeep : ∀ {l : List Entry} {e : Entry}, SawNothing t l pod → SawNothing t (l ++ [e]) pod :=
    fun h => h.mono (List.subset_append_left _ _)
  unfold clearStrandedClaim
  refine Text.look fun s => ⟨.inr trivial, ?_⟩
  have hno₁ : ¬ Claims (l ++ [(.read t, s)]) := not_claims_snoc hno fun _ _ he => by cases he
  split
  · exact ⟨nofun, hno₁, hkeep hnone⟩
  next c hc =>
  obtain ⟨hpending, hrow⟩ : pod.key ∈ s.mem.tentative ∧ s.mem.claims.lookup pod.key = some c := by
    split at hc
    · next hp => exact ⟨hp, hc⟩
    · cases hc
  have hsaw : ∀ {l' : List Entry}, (.read t, s) ∈ l' → SawStranded t l' pod.key c.id :=
    fun hm => ⟨s, c, hm, hpending, hrow, rfl⟩
  unfold release
  refine Text.request fun _ s₁ _ _ => ⟨.inr (hsaw (by simp)), ?_⟩
  have hno₂ : ¬ Claims (l ++ [(.read t, s)] ++ [(.asked t (.sendRelease c.id c.token) (), s₁)]) :=
    not_claims_snoc hno₁ fun _ _ he => by cases he
  refine Text.request fun r s₂ _ _ => ⟨.inr trivial, ?_⟩
  have hno₃ : ¬ Claims (l ++ [(.read t, s)] ++ [(.asked t (.sendRelease c.id c.token) (), s₁)] ++
      [(.asked t (.release c.id c.token) r, s₂)]) := not_claims_snoc hno₂ fun _ _ he => by cases he
  cases r with
  | error err => exact ⟨fun err he => by cases he; rfl, hno₃, hkeep (hkeep (hkeep hnone))⟩
  | ok u =>
    refine Text.enter fun s₃ =>
      ⟨.inr ⟨rfl, hsaw (by simp)⟩, nofun, ?_, hkeep (hkeep (hkeep (hkeep hnone)))⟩
    exact not_claims_snoc hno₃ fun _ _ he => by cases he

theorem text_notify {p : Pod} :
    Text cfg t (CreateText cfg pod) (fun l' _ => l ⊆ l') (notify p) l := by
  unfold notify
  refine Text.look fun s => ⟨.inr trivial, ?_⟩
  split
  · refine Text.last_request fun _ s₁ _ _ => ⟨.inr trivial, ?_⟩
    rw [List.append_assoc]
    exact List.subset_append_left _ _
  · exact List.subset_append_left _ _

/-- **`CreatePod` follows its text.** -/
theorem text_createPod : Text cfg t (CreateText cfg pod) (CreateDone t pod) (createPod cfg pod)
    [] := by
  unfold createPod
  dsimp only
  split
  · exact ⟨fun _ => not_claims_of_preliminary (List.forall_mem_nil _), fun _ _ _ => rfl⟩
  have herr : ∀ (l : List Entry) (err : ProviderError), PreliminaryDone l (.error err) →
      CreateDone t pod l (.error err) := fun l err h => createDone_of_not_annotations (h.2 err rfl)
  refine Machine.Follows.orReturn (text_resolve (List.forall_mem_nil _)) herr fun l₁ _ h₁ => ?_
  refine Machine.Follows.orReturn (text_settleExpired h₁.1) herr fun l₂ _ h₂ => ?_
  refine Text.enter fun s => ⟨.inr ⟨rfl, rfl, h₂.1⟩, ?_⟩
  have hno : ¬ Claims (l₂ ++ [(.locked t (.adoptExistingClaim pod.key pod), s)]) :=
    not_claims_snoc (not_claims_of_preliminary h₂.1) fun _ _ he => by cases he
  split
  · next c hc =>
    have hsaw : ∀ {l' : List Entry}, (.locked t (.adoptExistingClaim pod.key pod), s) ∈ l' →
        SawAdoptable t l' pod := fun hm => ⟨s, c, hm, hc⟩
    refine Machine.Follows.call (Machine.Follows.plain (saves_saveState _) ?_) fun l₃ _ h₃ => ?_
    · intro l ev s' hev
      refine .inr ?_
      cases ev with
      | asked t' e r => cases e <;> trivial
      | locked => cases hev
      | _ => trivial
    · obtain ⟨added, rfl, -⟩ := h₃
      exact Machine.Follows.call text_notify fun l₄ _ h₄ => .inl (hsaw (h₄ (by simp)))
  · next hc =>
    have hnone : SawNothing t (l₂ ++ [(.locked t (.adoptExistingClaim pod.key pod), s)]) pod :=
      ⟨s, by simp, hc⟩
    refine Machine.Follows.orReturn (text_clearStranded hno hnone) ?_ fun l₃ _ h₃ => ?_
    · exact fun l err h => createDone_of_not_annotations (h.1 err rfl)
    · exact text_claimFresh h₃.2.1 h₃.2.2

/-- What a call of `CreatePod` returns with. -/
def CreateReturn (t : Tid) (pod : Pod) (l : List Entry) : Outcome → Prop
  | .ok => CreateDone t pod l (.ok ())
  | .err err => CreateDone t pod l (.error err)
  | _ => True

/-- The text of a queue's calls, as far as they are `CreatePod`s. -/
theorem follows_createPod (cfg : Config) (k : Key) :
    Follows cfg (.lifecycle k)
      (fun op l ev s => ∀ pod, op = .createPod pod → CreateText cfg pod l ev s)
      (fun op l r => ∀ pod, op = .createPod pod → CreateReturn (.lifecycle k) pod l r) := by
  intro op s s' _
  by_cases hop : ∃ pod, op = .createPod pod
  · obtain ⟨pod, rfl⟩ := hop
    refine Machine.Follows.map ?_
    refine Machine.Follows.imp ?_ (@text_createPod cfg (.lifecycle k) pod) fun l r hr => ?_
    · rintro l ev s h pod' he
      cases he
      exact h
    · rintro pod' he
      cases he
      cases r with
      | error err => exact hr
      | ok u => exact hr
  · refine Machine.Follows.mono
      (Machine.Follows.free (P := fun _ => True) trivial (fun l ev s _ pod he => ?_) ?_) ?_
    · exact absurd ⟨pod, he⟩ hop
    · exact fun _ _ _ => trivial
    · exact fun l r _ pod he => absurd ⟨pod, he⟩ hop

end VkSandbox
