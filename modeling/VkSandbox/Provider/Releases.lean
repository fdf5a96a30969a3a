import VkSandbox.Provider.Requests

/-!
# Provider/Releases — what stands around a `Release`

Every method that releases a sandbox does it in the same three moves:

    sendRelease id token ─▸ release id token ─nil─▸ withdrawClaim key id   (CreatePod, DeletePod)
                                             ─nil─▸ dequeue id             (drainReleases)

so a reply answers the request before it, and a nil reply is followed by the section that strikes
the claim off, with no step of the same goroutine in between.  `follows_release` says so of every
call.
-/

namespace VkSandbox

open Interleave Interleave.Prog

variable {cfg : Config} {t : Tid} {op : Op} {l l' : List Entry} {id token : String} {ev : Ev}

/-! ## The text -/

/-- The last entry is a nil reply to a `Release` of `id`. -/
def JustReleased (t : Tid) (id : String) (l : List Entry) : Prop :=
  ∃ l' token s, l = l' ++ [(.asked t (.release id token) (.ok ()), s)]

/-- The last entry is the sending of a `Release`. -/
def JustSent (t : Tid) (id token : String) (l : List Entry) : Prop :=
  ∃ l' s, l = l' ++ [(.asked t (.sendRelease id token) (), s)]

/-- The section that strikes off a released claim. -/
def strikesOff : Tid → String → Section
  | .lifecycle key, id => .withdrawClaim key id
  | _, id => .dequeue id

/-- Where a call has read the claim it releases: `DeletePod` at its own key, `drainReleases` in the
queue. -/
def ReadBefore (t : Tid) (cr : Credential) (l : List Entry) : Op → Prop
  | .deletePod pod => ∃ s c, (.read t, s) ∈ l ∧ s.mem.claims.lookup pod.key = some c ∧ c.cred = cr
  | .recheckOwners _ _ => ∃ s c, (.read t, s) ∈ l ∧ c ∈ s.mem.releasing ∧ c.cred = cr
  | _ => True

/-- **What stands around a `Release`.** -/
structure ReleaseText (t : Tid) (op : Op) (l : List Entry) (ev : Ev) : Prop where
  strikes : ∀ id, JustReleased t id l → ev = .locked t (strikesOff t id)
  answers : ∀ id token r, ev = .asked t (.release id token) r → JustSent t id token l
  sends : ∀ id token r, ev = .asked t (.sendRelease id token) r → ReadBefore t ⟨id, token⟩ l op

/-- No nil reply to a `Release` is waiting to be acted on. -/
def NoneWaiting (t : Tid) (l : List Entry) : Prop := ∀ id, ¬ JustReleased t id l

/-- The two halves of a `Release`. -/
def Request.Releases : Request → Bool
  | .sendRelease _ _ | .release _ _ => true
  | _ => false

theorem JustReleased.unique {id' : String} (h : JustReleased t id l) (h' : JustReleased t id' l) :
    id = id' := by
  obtain ⟨l₁, token, s, rfl⟩ := h
  obtain ⟨l₂, token', s', he⟩ := h'
  cases (List.append_inj' he rfl).2
  rfl

theorem noneWaiting_nil : NoneWaiting t [] := by
  rintro id ⟨l', token, s, he⟩
  simp at he

theorem noneWaiting_snoc {s : State}
    (hev : ∀ id token, ev ≠ .asked t (.release id token) (.ok ())) :
    NoneWaiting t (l ++ [(ev, s)]) := by
  rintro id ⟨l', token, s', he⟩
  cases (List.append_inj' he rfl).2
  exact hev id token rfl

/-- Away from a `Release` everything is allowed. -/
theorem NoneWaiting.next {s : State} (h : NoneWaiting t l)
    (hev : ∀ u e r, ev = .asked u e r → e.Releases = false) :
    ReleaseText t op l ev ∧ NoneWaiting t (l ++ [(ev, s)]) := by
  have hne : ∀ {e : Request} {r : Reply e}, e.Releases = true → ev ≠ .asked t e r := by
    rintro e r he rfl
    rw [hev t e r rfl] at he
    cases he
  exact ⟨⟨fun id hid => absurd hid (h id), fun id token r he => absurd he (hne rfl),
    fun id token r he => absurd he (hne rfl)⟩, noneWaiting_snoc fun id token => hne rfl⟩

theorem ReadBefore.mono {cr : Credential} (h : ReadBefore t cr l op) (hl : l ⊆ l') :
    ReadBefore t cr l' op := by
  cases op with
  | deletePod pod | recheckOwners now base =>
    obtain ⟨s, c, hs, hc⟩ := h
    exact ⟨s, c, hl hs, hc⟩
  | _ => trivial

/-! ## The rules -/

section Rules

variable {α β : Type} {Q : List Entry → α → Prop}

/-- Code that follows the text, from a journal on. -/
abbrev Releasing (cfg : Config) (t : Tid) (op : Op) {α : Type} (Q : List Entry → α → Prop)
    (p : Code α) (l : List Entry) : Prop :=
  Text cfg t (fun l ev _ => ReleaseText t op l ev) Q p l

theorem releasing_of_asks {p : Code α} (h : p.Asks fun e => e.Releases = false)
    (hl : NoneWaiting t l) : Releasing cfg t op (fun l' _ => l ⊆ l' ∧ NoneWaiting t l') p l := by
  refine Machine.Follows.keeps_of_asks h ⟨List.Subset.refl l, hl⟩ fun l' ev s hl' hev => ?_
  obtain ⟨hg, hnone⟩ := hl'.2.next (s := s) hev
  exact ⟨hg, fun e he => List.mem_append_left _ (hl'.1 he), hnone⟩

theorem releasing_look {f : Memory → β} {g : β → Code α} (hl : NoneWaiting t l)
    (h : ∀ s, NoneWaiting t (l ++ [(.read t, s)]) →
      Releasing cfg t op Q (g (f s.mem)) (l ++ [(.read t, s)])) :
    Releasing cfg t op Q (look f >>= g) l := by
  refine Text.look fun s => ?_
  have hnext : ReleaseText t op l (.read t) ∧ NoneWaiting t (l ++ [(.read t, s)]) :=
    hl.next fun u e r he => by cases he
  exact ⟨hnext.1, h s hnext.2⟩

theorem releasing_enter {a : Section} {f : Memory → β} {g : β → Code α} (hl : NoneWaiting t l)
    (h : ∀ s, NoneWaiting t (l ++ [(.locked t a, s)]) →
      Releasing cfg t op Q (g (f s.mem)) (l ++ [(.locked t a, s)])) :
    Releasing cfg t op Q (enter a f >>= g) l := by
  refine Text.enter fun s => ?_
  have hnext : ReleaseText t op l (.locked t a) ∧ NoneWaiting t (l ++ [(.locked t a, s)]) :=
    hl.next fun u e r he => by cases he
  exact ⟨hnext.1, h s hnext.2⟩

/-- A `Release`: after an error nothing is waiting, after nil its claim is to be struck off. -/
theorem releasing_release {g : Except String Unit → Code α} (hl : NoneWaiting t l)
    (hread : ReadBefore t ⟨id, token⟩ l op)
    (herr : ∀ err l', l ⊆ l' → NoneWaiting t l' → Releasing cfg t op Q (g (.error err)) l')
    (hok : ∀ l', l ⊆ l' → JustReleased t id l' → Releasing cfg t op Q (g (.ok ())) l') :
    Releasing cfg t op Q (release id token >>= g) l := by
  have hsend : ReleaseText t op l (.asked t (.sendRelease id token) ()) := by
    refine ⟨fun id' hid => absurd hid (hl id'), fun _ _ _ he => ?_, fun id' token' r he => ?_⟩
    · cases he
    · cases he
      exact hread
  have hanswer : ∀ s r, ReleaseText t op (l ++ [(.asked t (.sendRelease id token) (), s)])
      (.asked t (.release id token) r) := by
    intro s r
    have hnone : NoneWaiting t (l ++ [(.asked t (.sendRelease id token) (), s)]) :=
      noneWaiting_snoc fun _ _ he => by cases he
    refine ⟨fun id' hid => absurd hid (hnone id'), fun id' token' r he => ?_, fun _ _ _ he => ?_⟩
    · cases he
      exact ⟨l, s, rfl⟩
    · cases he
  refine Text.request fun u s₁ s₁' _ => ⟨hsend, Text.request fun r s₂ s₂' _ => ⟨hanswer s₁ r, ?_⟩⟩
  have hsub : l ⊆ l ++ [(.asked t (.sendRelease id token) u, s₁)] ++
      [(.asked t (.release id token) r, s₂)] :=
    fun e he => List.mem_append_left _ (List.mem_append_left _ he)
  cases r with
  | error err => exact herr err _ hsub (noneWaiting_snoc fun _ _ he => by cases he)
  | ok v => exact hok _ hsub ⟨_, token, s₂, rfl⟩

/-- The section after a nil reply. -/
theorem releasing_strike {f : Memory → β} {g : β → Code α} (hl : JustReleased t id l)
    (h : ∀ s, NoneWaiting t (l ++ [(.locked t (strikesOff t id), s)]) →
      Releasing cfg t op Q (g (f s.mem)) (l ++ [(.locked t (strikesOff t id), s)])) :
    Releasing cfg t op Q (enter (strikesOff t id) f >>= g) l := by
  have hstrike : ReleaseText t op l (.locked t (strikesOff t id)) := by
    refine ⟨fun id' hid => ?_, fun _ _ _ he => ?_, fun _ _ _ he => ?_⟩
    · rw [hid.unique hl]
    · cases he
    · cases he
  exact Text.enter fun s => ⟨hstrike, h s (noneWaiting_snoc fun _ _ he => by cases he)⟩

end Rules

/-! ## The calls -/

section Calls

theorem Request.Lists.not_releases {e : Request} (h : e.Lists) : e.Releases = false := by
  cases e <;> first | rfl | cases h

theorem Request.Saves.not_releases {e : Request} (h : e.Saves) : e.Releases = false := by
  cases e <;> first | rfl | cases h

theorem not_releases_saveState : (saveState cfg).Asks fun e => e.Releases = false :=
  asks_saveState fun _ he => he.not_releases

variable {pod : Pod}

theorem releasing_clearStranded (hread : ∀ l cr, ReadBefore (.lifecycle pod.key) cr l op)
    (hl : NoneWaiting (.lifecycle pod.key) l) :
    Releasing cfg (.lifecycle pod.key) op (fun l' _ => NoneWaiting (.lifecycle pod.key) l')
      (clearStrandedClaim pod.key) l := by
  refine releasing_look hl fun s hl => ?_
  split
  · exact hl
  refine releasing_release hl (hread _ _) (fun err l' _ hl' => hl') fun l' _ hl' => ?_
  exact releasing_strike hl' fun _ hl => hl

theorem releasing_recordClaim (hread : ∀ l cr, ReadBefore (.lifecycle pod.key) cr l op)
    (hl : NoneWaiting (.lifecycle pod.key) l) (res : ClaimResult) :
    Releasing cfg (.lifecycle pod.key) op (fun l' _ => NoneWaiting (.lifecycle pod.key) l')
      (recordClaim cfg pod res) l := by
  have hnow : (request .now).Asks fun e => e.Releases = false := ⟨rfl, fun _ => trivial⟩
  refine Machine.Follows.call (releasing_of_asks hnow hl) fun l now hl => ?_
  refine releasing_enter hl.2 fun s hl => ?_
  have hcommit : (commitClaim cfg pod.key).Asks fun e => e.Releases = false :=
    asks_commitClaim (fun _ he => he.not_releases) _
  refine Machine.Follows.call (releasing_of_asks hcommit hl) fun l r hl => ?_
  cases r with
  | error err =>
    refine releasing_release hl.2 (hread _ _) (fun err l' _ hl' => hl') fun l' _ hl' => ?_
    exact releasing_strike hl' fun _ hl => hl
  | ok u => exact Machine.Follows.call (releasing_of_asks (asks_notify rfl) hl.2) fun l _ hl => hl.2

theorem releasing_claimFresh (hread : ∀ l cr, ReadBefore (.lifecycle pod.key) cr l op)
    (hl : NoneWaiting (.lifecycle pod.key) l) :
    Releasing cfg (.lifecycle pod.key) op (fun l' _ => NoneWaiting (.lifecycle pod.key) l')
      (claimFresh cfg pod) l := by
  unfold claimFresh
  split
  · exact hl
  next spec hspec =>
  have hclaim : (claim spec).Asks fun e => e.Releases = false :=
    ⟨rfl, fun _ => ⟨rfl, fun _ => trivial⟩⟩
  refine Machine.Follows.call (releasing_of_asks hclaim hl) fun l r hl => ?_
  cases r with
  | error err => exact hl.2
  | ok res => exact releasing_recordClaim hread hl.2 res

theorem releasing_createPod (hread : ∀ l cr, ReadBefore (.lifecycle pod.key) cr l op)
    (hl : NoneWaiting (.lifecycle pod.key) l) :
    Releasing cfg (.lifecycle pod.key) op (fun l' _ => NoneWaiting (.lifecycle pod.key) l')
      (createPod cfg pod) l := by
  unfold createPod
  dsimp only
  split
  · exact hl
  have hresolve : (resolveUnverifiedClaim cfg pod.key).Asks fun e => e.Releases = false := by
    refine .look fun m => ?_
    split
    · trivial
    refine (asks_verify fun _ he => he.not_releases).bind fun b => ?_
    split <;> trivial
  have hsettle : (settleExpiredClaim cfg pod.key).Asks fun e => e.Releases = false :=
    (asks_settleExpired _).mono fun e he => by
      obtain rfl | he := he
      · rfl
      · exact he.not_releases
  refine .orReturn (releasing_of_asks hresolve hl) (fun l err hl => hl.2) fun l _ hl => ?_
  refine .orReturn (releasing_of_asks hsettle hl.2) (fun l err hl => hl.2) fun l _ hl => ?_
  refine releasing_enter hl.2 fun s hl => ?_
  split
  · refine Machine.Follows.call (releasing_of_asks not_releases_saveState hl) fun l _ hl => ?_
    exact Machine.Follows.call (releasing_of_asks (asks_notify rfl) hl.2) fun l _ hl => hl.2
  · exact .orReturn (releasing_clearStranded hread hl) (fun l err hl => hl) fun l _ hl =>
      releasing_claimFresh hread hl

theorem releasing_updatePod (hread : ∀ l cr, ReadBefore (.lifecycle pod.key) cr l op)
    (hl : NoneWaiting (.lifecycle pod.key) l) :
    Releasing cfg (.lifecycle pod.key) op (fun l' _ => NoneWaiting (.lifecycle pod.key) l')
      (updatePod cfg pod) l := by
  refine releasing_look hl fun s hl => ?_
  split
  · exact hl
  refine releasing_enter hl fun s hl => ?_
  split
  · exact releasing_createPod hread hl
  · exact hl

theorem releasing_deletePod (hl : NoneWaiting (.lifecycle pod.key) l) :
    Releasing cfg (.lifecycle pod.key) (.deletePod pod)
      (fun l' _ => NoneWaiting (.lifecycle pod.key) l') (deletePod cfg pod) l := by
  refine releasing_look hl fun s hl => ?_
  split
  · exact hl
  refine releasing_look hl fun s hl => ?_
  split
  · exact releasing_enter hl fun _ hl => hl
  next c hc =>
  have howner : (destroyAuthorized cfg pod.key pod.ns (controllerOf pod)).Asks
      fun e => e.Releases = false := asks_destroyAuthorized fun _ _ _ _ => rfl
  refine Machine.Follows.call (releasing_of_asks howner hl) fun l' v hl' => ?_
  have hread : ReadBefore (.lifecycle pod.key) c.cred l' (.deletePod pod) :=
    ⟨s, c, hl'.1 (List.mem_append_right _ (List.mem_singleton_self _)), hc, rfl⟩
  split
  · refine releasing_enter hl'.2 fun _ hl => ?_
    exact Machine.Follows.call (releasing_of_asks not_releases_saveState hl) fun l _ hl => hl.2
  refine releasing_release hl'.2 hread (fun err l' _ hl' => hl') fun l' _ hl' => ?_
  refine releasing_strike hl' fun _ hl => ?_
  exact Machine.Follows.call (releasing_of_asks not_releases_saveState hl) fun l _ hl => hl.2

variable {now : Time} {base : ℕ}

theorem releasing_drainLoop {q : List Claim} (released : Bool) (hl : NoneWaiting .ownerRecheck l)
    (hread : ∀ c ∈ q, ReadBefore .ownerRecheck c.cred l (.recheckOwners now base)) :
    Releasing cfg .ownerRecheck (.recheckOwners now base) (fun l' _ => NoneWaiting .ownerRecheck l')
      (drainLoop q released) l := by
  induction q generalizing l released with
  | nil => exact hl
  | cons c rest ih =>
    have hrest : ∀ {l'}, l ⊆ l' → ∀ c ∈ rest,
        ReadBefore .ownerRecheck c.cred l' (.recheckOwners now base) := fun hsub c hc =>
      (hread c (List.mem_cons_of_mem _ hc)).mono hsub
    refine releasing_release hl (hread c List.mem_cons_self) (fun err l' hsub hl' => ?_)
      fun l' hsub hl' => ?_
    · exact ih released hl' (hrest hsub)
    · exact releasing_strike hl' fun s hl => ih true hl
        (hrest fun e he => List.mem_append_left _ (hsub he))

theorem releasing_recheckOwners (hl : NoneWaiting .ownerRecheck l) :
    Releasing cfg .ownerRecheck (.recheckOwners now base) (fun l' _ => NoneWaiting .ownerRecheck l')
      (recheckOwners cfg now base) l := by
  have howner : ∀ key c, (recheckOwner cfg now base key c).Asks fun e => e.Releases = false := by
    intro key c
    refine .look fun m => ?_
    split
    · trivial
    refine (asks_destroyAuthorized fun _ _ _ _ => rfl).bind fun v => ?_
    split
    · exact .enter fun _ => .enter fun _ => trivial
    · exact .enter fun _ => trivial
  have hloop : ∀ rows keys changed,
      (recheckLoop cfg now base rows keys changed).Asks fun e => e.Releases = false := by
    intro rows keys
    induction keys with
    | nil => exact fun _ => trivial
    | cons key rest ih =>
      intro changed
      unfold recheckLoop
      split
      · exact ih changed
      · exact (howner _ _).bind fun moved => ih _
  refine releasing_look hl fun s hl => releasing_enter hl fun _ hl => ?_
  have hrange : (request (.rangeOver (s.mem.preserved).keys)).Asks fun e => e.Releases = false :=
    ⟨rfl, fun _ => trivial⟩
  refine Machine.Follows.call (releasing_of_asks hrange hl) fun l order hl => ?_
  refine Machine.Follows.call (releasing_of_asks (hloop _ _ _) hl.2) fun l changed hl => ?_
  refine Machine.Follows.call (P := fun l' _ => NoneWaiting .ownerRecheck l') ?_
    fun l drained hl => ?_
  · refine releasing_look hl.2 fun s hl => releasing_drainLoop false hl fun c hc => ?_
    exact ⟨s, c, List.mem_append_right _ (List.mem_singleton_self _), hc, rfl⟩
  · split
    · exact (releasing_of_asks not_releases_saveState hl).mono fun l _ hl => hl.2
    · exact hl

/-- The calls that release nothing. -/
def Op.releases : Op → Bool
  | .createPod _ | .updatePod _ | .deletePod _ | .recheckOwners _ _ => true
  | _ => false

theorem Op.MayAsk.not_releases {e : Request} (hop : op.releases = false)
    (h : op.MayAsk cfg.platform e) :
    e.Releases = false := by
  obtain ⟨-, h⟩ | ⟨-, h⟩ | h := h
  · exact h.not_releases
  · exact h.not_releases
  · cases e with
    | sendRelease id token | release id token =>
      cases op with
      | createPod _ | updatePod _ | deletePod _ | recheckOwners _ _ => cases hop
      | _ => cases h
    | _ => rfl

theorem lifecycle_of_mayCall (h : t = .boot ∧ op = .new ∨ mayCall t op) (hp : op.pod = some pod) :
    t = .lifecycle pod.key := by
  obtain ⟨-, rfl⟩ | h := h
  · cases hp
  · cases t with
    | lifecycle key =>
      refine congrArg Tid.lifecycle ?_
      cases op with
      | createPod p | updatePod p | deletePod p =>
        cases hp
        exact (of_decide_eq_true h).symm
      | _ => cases hp
    | _ =>
      cases op with
      | createPod p | updatePod p | deletePod p => cases h
      | _ => cases hp

/-- **A reply answers its own request, and a nil reply is acted on at once.** -/
theorem follows_release (cfg : Config) (t : Tid) :
    Follows cfg t (fun op l ev _ => ReleaseText t op l ev) (fun _ l _ => NoneWaiting t l) := by
  intro op s s' hs
  have hm := mayCall_of_started hs
  have hnil : NoneWaiting t [] := noneWaiting_nil
  have hplain : op.releases = false →
      Releasing cfg t op (fun l _ => NoneWaiting t l) (code cfg op) [] :=
    fun hop => (releasing_of_asks ((asks_code op).mono fun _ he => he.not_releases hop) hnil).mono
      fun l _ hl => hl.2
  cases op with
  | createPod pod =>
    obtain rfl : t = .lifecycle pod.key := lifecycle_of_mayCall hm rfl
    have hread : ∀ l cr, ReadBefore (.lifecycle pod.key) cr l (.createPod pod) := fun _ _ => trivial
    exact Machine.Follows.map ((releasing_createPod hread hnil).mono fun l _ hl => hl)
  | updatePod pod =>
    obtain rfl : t = .lifecycle pod.key := lifecycle_of_mayCall hm rfl
    have hread : ∀ l cr, ReadBefore (.lifecycle pod.key) cr l (.updatePod pod) := fun _ _ => trivial
    exact Machine.Follows.map ((releasing_updatePod hread hnil).mono fun l _ hl => hl)
  | deletePod pod =>
    obtain rfl : t = .lifecycle pod.key := lifecycle_of_mayCall hm rfl
    exact Machine.Follows.map ((releasing_deletePod hnil).mono fun l _ hl => hl)
  | recheckOwners now base =>
    obtain rfl : t = .ownerRecheck := by
      obtain ⟨-, he⟩ | hm := hm
      · cases he
      · cases t with
        | ownerRecheck => rfl
        | _ => cases hm
    exact Machine.Follows.call (releasing_recheckOwners hnil) fun l _ hl => hl
  | _ => exact hplain rfl

end Calls

end VkSandbox
