import VkSandbox.Machinery.Sessions
import VkSandbox.Properties.Rejections
import VkSandbox.Provider.Requests

/-!
# Properties/Sessions — the conversations of a lifecycle call

What a `CreatePod`, an `UpdatePod` or a `DeletePod` says to sandboxd, the API server and
virtual-kubelet, and in which order, is a language of sessions:

    CreatePod   list{0..2}  notify?                                  adopted
                list{0..2}  release?  claim  notify?                 bound to a fresh sandbox
                list{0..2}  release?  claim  release                 not persisted, handed back
                …  and the first exchange that fails ends it, with an error that names it

    DeletePod   getOwner?  release?

`lifecycle_sessions` says that every call that returns has held one of these, and that the session
and the result belong together.
-/

namespace VkSandbox

open Interleave Interleave.Prog

variable {cfg : Config}

/-! ## Exchanges -/

/-- An exchange with sandboxd, with the API server, or with virtual-kubelet. -/
inductive Exchange where
  | claim (spec : ClaimSpec) (r : Except String ClaimResult)
  | release (id token : String) (r : Except String Unit)
  | list (r : Except String (List SandboxSummary))
  | getOwner (gvr : GroupVersionResource) (ns name : String) (r : OwnerRead)
  | notify (pod : Pod)

/-- Which requests are exchanges. -/
def exchange : (e : Request) → Reply e → Option Exchange
  | .claim spec, r => some (.claim spec r)
  | .release id token, r => some (.release id token r)
  | .sandboxes, r => some (.list r)
  | .getOwner _ gvr ns name, r => some (.getOwner gvr ns name r)
  | .notify pod, _ => some (.notify pod)
  | _, _ => none

/-- Code whose sessions are words of a language. -/
abbrev Talks {α : Type} (p : Code α) (L : List Exchange → α → Prop) : Prop := p.Speaks exchange L

/-! ## The languages -/

/-- Listings that succeed, two at most. -/
def Lists (n : ℕ) (w : List Exchange) : Prop :=
  w.length ≤ n ∧ ∀ e ∈ w, ∃ listed, e = .list (.ok listed)

/-- A stranded sandbox is handed back, if there is one. -/
def HandsBack (w : List Exchange) : Prop := w = [] ∨ ∃ id token, w = [.release id token (.ok ())]

/-- A Pod is pushed, if there is anyone to push it to. -/
def Pushes (pod : Pod) (w : List Exchange) : Prop := w = [] ∨ w = [.notify pod]

/-- What `CreatePod` returns when it could not persist a claim, by the answer to its `Release`. -/
def undoError (cfg : Config) (key : Key) (persistErr : ProviderError) (id : String) :
    Except String Unit → ProviderError
  | .ok () => .persistFailed key (persistErr.text cfg.platform)
  | .error err => .persistAndUndoFailed key (persistErr.text cfg.platform) id err

/-- **The sessions of `CreatePod`**, with their results. -/
inductive CreateSession (cfg : Config) (pod : Pod) :
    List Exchange → Except ProviderError Unit → Prop where
  | runtime (h : ann pod annRuntime runtimeSandboxd ≠ runtimeSandboxd) :
      CreateSession cfg pod [] (.error (.wrongRuntime pod.key (ann pod annRuntime runtimeSandboxd)))
  | noLister (h : cfg.lister = false) : CreateSession cfg pod [] (.error (.unverified pod.key))
  | unverified {err : String} :
      CreateSession cfg pod [.list (.error err)] (.error (.unverified pod.key))
  | expired {w : List Exchange} {id err : String} (hw : Lists 1 w) :
      CreateSession cfg pod (w ++ [.list (.error err)]) (.error (.expiredUnlistable pod.key id err))
  | adopted {w p : List Exchange} {c : Claim} (hw : Lists 2 w) (hp : Pushes (runningPod pod c) p) :
      CreateSession cfg pod (w ++ p) (.ok ())
  | stranded {w : List Exchange} {id token err : String} (hw : Lists 2 w) :
      CreateSession cfg pod (w ++ [.release id token (.error err)])
        (.error (.stranded pod.key id err))
  | invalid {w v : List Exchange} {err : ProviderError} (hw : Lists 2 w) (hv : HandsBack v)
      (hspec : claimSpec pod = .error err) : CreateSession cfg pod (w ++ v) (.error err)
  | claimFailed {w v : List Exchange} {spec : ClaimSpec} {err : String} (hw : Lists 2 w)
      (hv : HandsBack v) (hspec : claimSpec pod = .ok spec) :
      CreateSession cfg pod (w ++ v ++ [.claim spec (.error err)])
        (.error (.claimFailed pod.key spec.template err))
  | bound {w v p : List Exchange} {spec : ClaimSpec} {res : ClaimResult} {now : Time}
      (hw : Lists 2 w) (hv : HandsBack v) (hspec : claimSpec pod = .ok spec)
      (hp : Pushes (runningPod pod (.ofResult res pod now)) p) :
      CreateSession cfg pod (w ++ v ++ .claim spec (.ok res) :: p) (.ok ())
  | unpersisted {w v : List Exchange} {spec : ClaimSpec} {res : ClaimResult} {err : ProviderError}
      {r : Except String Unit} (hw : Lists 2 w) (hv : HandsBack v)
      (hspec : claimSpec pod = .ok spec) :
      CreateSession cfg pod (w ++ v ++ [.claim spec (.ok res), .release res.id res.token r])
        (.error (undoError cfg pod.key err res.id r))

/-- The sessions of `destroyAuthorized`. -/
inductive OwnerSession (cfg : Config) (ns : String) :
    Option OwnerReference → List Exchange → AuthVerdict → Prop where
  | bare : OwnerSession cfg ns none [] .release
  | unverifiable {ref : OwnerReference}
      (h : cfg.dynamic = false ∨ ownerGVR cfg.platform ref.apiVersion ref.kind = none) :
      OwnerSession cfg ns (some ref) [] .preserve
  | asked {ref : OwnerReference} {gvr : GroupVersionResource} {r : OwnerRead} (hdyn : cfg.dynamic)
      (hgvr : ownerGVR cfg.platform ref.apiVersion ref.kind = some gvr) :
      OwnerSession cfg ns (some ref) [.getOwner gvr ns ref.name r] (judgeOwner ref r).1

/-- **The sessions of `DeletePod`**, with their results. -/
inductive DeleteSession (cfg : Config) (pod : Pod) :
    List Exchange → Except ProviderError Unit → Prop where
  | nothing : DeleteSession cfg pod [] (.ok ())
  | preserved {w : List Exchange} (hw : OwnerSession cfg pod.ns (controllerOf pod) w .preserve) :
      DeleteSession cfg pod w (.ok ())
  | released {w : List Exchange} {id token : String}
      (hw : OwnerSession cfg pod.ns (controllerOf pod) w .release) :
      DeleteSession cfg pod (w ++ [.release id token (.ok ())]) (.ok ())
  | failed {w : List Exchange} {id token err : String}
      (hw : OwnerSession cfg pod.ns (controllerOf pod) w .release) :
      DeleteSession cfg pod (w ++ [.release id token (.error err)])
        (.error (.releaseFailed id pod.key err))

/-- The sessions of a lifecycle call. -/
def Op.Session (cfg : Config) : Op → List Exchange → Except ProviderError Unit → Prop
  | .createPod pod, w, r => CreateSession cfg pod w r
  | .updatePod pod, w, r => w = [] ∧ r = .ok () ∨ CreateSession cfg pod w r
  | .deletePod pod, w, r => DeleteSession cfg pod w r
  | _, _, _ => True

/-! ## What the helpers say -/

section Helpers

variable {α : Type} {L : List Exchange → α → Prop}

theorem talks_sandboxes {g : Except String (List SandboxSummary) → Code α}
    (h : ∀ r, Talks (g r) fun w a => L (.list r :: w) a) : Talks (sandboxes >>= g) L := fun _ => h

theorem talks_release {id token : String} {g : Except String Unit → Code α}
    (h : ∀ r, Talks (g r) fun w a => L (.release id token r :: w) a) :
    Talks (release id token >>= g) L := fun _ => h

theorem talks_claim {spec : ClaimSpec} {g : Except String ClaimResult → Code α}
    (h : ∀ r, Talks (g r) fun w a => L (.claim spec r :: w) a) : Talks (claim spec >>= g) L :=
  fun _ => h

theorem talks_now {g : Time → Code α} (h : ∀ now, Talks (g now) L) :
    Talks (request .now >>= g) L := h

theorem talks_notify (pod : Pod) : Talks (notify pod) fun w _ => Pushes pod w := by
  refine .look fun m => ?_
  split
  · exact fun _ => .inr rfl
  · exact .inl rfl

theorem exchange_of_saves {e : Request} (he : e.Saves) (r : Reply e) : exchange e r = none := by
  cases e with
  | lockSave | unlockSave | mkdirAll | writeFile st | rename => rfl
  | _ => cases he

end Helpers

/-! ## `CreatePod` -/

variable {pod : Pod}

/-- `VerifyClaimsAgainstNode` lists once at most, and fails with the listing. -/
def VerifySession (cfg : Config) (w : List Exchange) : Bool → Prop
  | true => Lists 1 w
  | false => w = [] ∧ cfg.lister = false ∨ ∃ err, w = [.list (.error err)]

theorem lists_nil (n : ℕ) : Lists n [] := ⟨Nat.zero_le n, List.forall_mem_nil _⟩

theorem lists_one {n : ℕ} (listed : List SandboxSummary) : Lists (n + 1) [.list (.ok listed)] :=
  ⟨Nat.le_add_left 1 n, fun _ he => ⟨listed, List.mem_singleton.mp he⟩⟩

theorem Lists.append {n n' : ℕ} {w w' : List Exchange} (h : Lists n w) (h' : Lists n' w') :
    Lists (n + n') (w ++ w') := by
  refine ⟨?_, fun e he => (List.mem_append.mp he).elim (h.2 e) (h'.2 e)⟩
  rw [List.length_append]
  exact Nat.add_le_add h.1 h'.1

theorem talks_verify : Talks (verifyClaimsAgainstNode cfg) (VerifySession cfg) := by
  unfold verifyClaimsAgainstNode
  split
  · next hl => exact .inl ⟨rfl, by simpa using hl⟩
  refine .look fun m => ?_
  split
  · exact lists_nil 1
  refine talks_sandboxes fun r => ?_
  cases r with
  | error err => exact .inr ⟨err, rfl⟩
  | ok listed => exact fun m => lists_one listed

/-- What comes of `resolveUnverifiedClaim`. -/
def ResolveSession (cfg : Config) (key : Key) (w : List Exchange) : Except ProviderError Unit → Prop
  | .ok () => Lists 1 w
  | .error err => err = .unverified key ∧ VerifySession cfg w false

theorem talks_resolve (key : Key) :
    Talks (resolveUnverifiedClaim cfg key) (ResolveSession cfg key) := by
  refine .look fun m => ?_
  split
  · exact lists_nil 1
  refine talks_verify.after fun w r hw => ?_
  cases r with
  | true => exact .ends hw
  | false => exact .ends ⟨rfl, hw⟩

/-- What comes of `settleExpiredClaim`. -/
def SettleSession (key : Key) (w : List Exchange) : Except ProviderError Unit → Prop
  | .ok () => Lists 1 w
  | .error e => ∃ id err, e = .expiredUnlistable key id err ∧ w = [.list (.error err)]

theorem talks_settle (key : Key) : Talks (settleExpiredClaim cfg key) (SettleSession key) := by
  refine .look fun m => ?_
  split
  · exact lists_nil 1
  next c _ =>
  refine talks_now fun now => ?_
  split
  · exact lists_nil 1
  split
  · exact fun m => lists_nil 1
  refine talks_sandboxes fun r => ?_
  cases r with
  | error err => exact ⟨c.id, err, rfl, rfl⟩
  | ok listed =>
    dsimp only
    split
    · exact fun m => lists_one listed
    · exact fun m => lists_one listed

/-- What comes of `clearStrandedClaim`. -/
def ClearSession (key : Key) (w : List Exchange) : Except ProviderError Unit → Prop
  | .ok () => HandsBack w
  | .error e => ∃ id token err, e = .stranded key id err ∧ w = [.release id token (.error err)]

theorem talks_clear (key : Key) : Talks (clearStrandedClaim key) (ClearSession key) := by
  refine .look fun m => ?_
  split
  · exact .inl rfl
  next c _ =>
  refine talks_release fun r => ?_
  cases r with
  | error err => exact ⟨c.id, c.token, err, rfl, rfl⟩
  | ok u => exact fun m => .inr ⟨c.id, c.token, rfl⟩

/-- What comes of a fresh claim, once sandboxd has answered. -/
def RecordSession (cfg : Config) (pod : Pod) (res : ClaimResult) (w : List Exchange) :
    Except ProviderError Unit → Prop
  | .ok () => ∃ now, Pushes (runningPod pod (.ofResult res pod now)) w
  | .error e => ∃ err r, e = undoError cfg pod.key err res.id r ∧ w = [.release res.id res.token r]

theorem talks_undo (key : Key) (c : Claim) (err : ProviderError) :
    Talks (undoUnpersistedClaim cfg key c err) fun w r =>
      ∃ a, r = .error (undoError cfg key err c.id a) ∧
      w = [.release c.id c.token a] := by
  refine talks_release fun r => ?_
  cases r with
  | error e => exact ⟨.error e, rfl, rfl⟩
  | ok u => exact fun m => ⟨.ok u, rfl, rfl⟩

theorem talks_record (res : ClaimResult) :
    Talks (recordClaim cfg pod res) (RecordSession cfg pod res) := by
  refine talks_now fun now => .enter fun m => ?_
  refine .quietly (asks_commitClaim (fun e he => exchange_of_saves he) pod.key) fun r => ?_
  cases r with
  | error err =>
    refine (talks_undo _ _ err).mono fun w r h => ?_
    obtain ⟨a, rfl, rfl⟩ := h
    exact ⟨err, a, rfl, rfl⟩
  | ok u =>
    refine (talks_notify _).after fun w _ hw => ?_
    exact .ends ⟨now, hw⟩

/-- What comes of `claimFresh`. -/
inductive FreshSession (cfg : Config) (pod : Pod) :
    List Exchange → Except ProviderError Unit → Prop where
  | invalid {err : ProviderError} (h : claimSpec pod = .error err) :
      FreshSession cfg pod [] (.error err)
  | failed {spec : ClaimSpec} {err : String} (h : claimSpec pod = .ok spec) :
      FreshSession cfg pod [.claim spec (.error err)]
        (.error (.claimFailed pod.key spec.template err))
  | claimed {spec : ClaimSpec} {res : ClaimResult} {w : List Exchange}
      {r : Except ProviderError Unit} (h : claimSpec pod = .ok spec)
      (hr : RecordSession cfg pod res w r) :
      FreshSession cfg pod (.claim spec (.ok res) :: w) r

theorem talks_fresh : Talks (claimFresh cfg pod) (FreshSession cfg pod) := by
  unfold claimFresh
  split
  · next err h => exact .invalid h
  next spec hspec =>
  refine talks_claim fun r => ?_
  cases r with
  | error err => exact .failed hspec
  | ok res => exact (talks_record res).mono fun w r hr => .claimed hspec hr

theorem CreateSession.fresh {w v f : List Exchange} {r : Except ProviderError Unit} (hw : Lists 2 w)
    (hv : HandsBack v) (hf : FreshSession cfg pod f r) : CreateSession cfg pod (w ++ v ++ f) r := by
  cases hf with
  | invalid h =>
    rw [List.append_nil]
    exact .invalid hw hv h
  | failed h => exact .claimFailed hw hv h
  | claimed h hr =>
    cases r with
    | ok u =>
      obtain ⟨now, hp⟩ := hr
      exact .bound hw hv h hp
    | error e =>
      obtain ⟨err, a, rfl, rfl⟩ := hr
      exact .unpersisted hw hv h

theorem talks_createPod : Talks (createPod cfg pod) (CreateSession cfg pod) := by
  unfold createPod
  dsimp only
  split
  · next h => exact .runtime h
  refine .orReturn (talks_resolve pod.key) (fun w err h => ?_) fun w₁ _ h₁ => ?_
  · obtain ⟨rfl, ⟨rfl, hl⟩ | ⟨err, rfl⟩⟩ := h
    · exact .noLister hl
    · exact .unverified
  refine .orReturn (talks_settle pod.key) (fun w err h => ?_) fun w₂ _ h₂ => .enter fun m => ?_
  · obtain ⟨id, err, rfl, rfl⟩ := h
    exact .expired h₁
  have hlists : Lists 2 (w₁ ++ w₂) := h₁.append h₂
  split
  · next c _ =>
    refine .quietly (asks_saveState fun e he => exchange_of_saves he) fun _ => ?_
    refine (talks_notify _).after fun p _ hp => ?_
    simp only [← List.append_assoc]
    exact .ends (.adopted hlists hp)
  · refine .orReturn (talks_clear pod.key) (fun w err h => ?_) fun v _ hv => ?_
    · obtain ⟨id, token, err, rfl, rfl⟩ := h
      rw [← List.append_assoc]
      exact .stranded hlists
    · refine talks_fresh.mono fun f r hf => ?_
      rw [← List.append_assoc, ← List.append_assoc]
      exact .fresh hlists hv hf

/-! ## `UpdatePod` and `DeletePod` -/

theorem talks_updatePod : Talks (updatePod cfg pod) ((Op.updatePod pod).Session cfg) := by
  refine .look fun m => ?_
  split
  · exact .inl ⟨rfl, rfl⟩
  refine .enter fun m => ?_
  split
  · exact talks_createPod.mono fun w r h => .inr h
  · exact .inl ⟨rfl, rfl⟩

theorem talks_destroyAuthorized (key : Key) (ns : String) (owner : Option OwnerReference) :
    Talks (destroyAuthorized cfg key ns owner) fun w v => OwnerSession cfg ns owner w v.1 := by
  cases owner with
  | none => exact .bare
  | some ref =>
    simp only [destroyAuthorized]
    split
    · next h => exact .unverifiable (.inl (by simpa using h))
    next hdyn =>
    split
    · next h => exact .unverifiable (.inr h)
    next gvr hgvr => exact fun r => .asked (by simpa using hdyn) hgvr

theorem talks_deletePod : Talks (deletePod cfg pod) (DeleteSession cfg pod) := by
  refine .look fun m => ?_
  split
  · exact .nothing
  refine .look fun m => ?_
  split
  · exact fun m => .nothing
  next c _ =>
  refine (talks_destroyAuthorized _ _ _).after fun w v hw => ?_
  obtain ⟨v, reason⟩ := v
  cases v with
  | preserve =>
    refine .enter fun m => .quietly (asks_saveState fun e he => exchange_of_saves he) fun _ => ?_
    exact .ends (.preserved hw)
  | release =>
    refine talks_release fun r => ?_
    cases r with
    | error err => exact .failed hw
    | ok u =>
      refine .enter fun m => .quietly (asks_saveState fun e he => exchange_of_saves he) fun _ => ?_
      exact .released hw

/-! ## Every call that returns -/

section Runs

variable {file : File} {tr : List Ev} {t : Tid} {op : Op} {r : Outcome}
  {x x' : Interleave.Config State Memory Section Request Reply Tid Op Outcome}

/-- A result, and the session it belongs to. -/
def Op.Held (cfg : Config) (op : Op) (w : List Exchange) (r : Outcome) : Prop :=
  op.pod.isSome → ∃ res, r = Outcome.ofExcept res ∧ op.Session cfg w res

theorem talks_code (op : Op) : Talks (code cfg op) (op.Held cfg) := by
  have hheld : ∀ {p : Code (Except ProviderError Unit)}, Talks p (op.Session cfg) →
      Talks (Outcome.ofExcept <$> p) (op.Held cfg) :=
    fun h => .map (h.mono fun w res hw _ => ⟨res, rfl, hw⟩)
  have hfree : op.pod = none → Talks (code cfg op) (op.Held cfg) := fun hop => by
    refine (Speaks.free _).mono fun w r _ hsome => ?_
    rw [hop] at hsome
    cases hsome
  cases op with
  | createPod pod => exact hheld talks_createPod
  | updatePod pod => exact hheld talks_updatePod
  | deletePod pod => exact hheld talks_deletePod
  | _ => exact hfree rfl

/-- **Every lifecycle call that returns has held a session of its language, and the result is the
session's.**  So a `CreatePod` claims at most once, and only after its listings and what was
stranded; it pushes Running last, and only with nil; the first exchange that fails ends it with an
error that names it; and a sandbox it could not persist it hands back, with its own token, and says
so. -/
theorem lifecycle_sessions (h : Runs cfg file tr x) {pod : Pod} (hop : op.pod = some pod)
    (hs : Step (machine cfg) x (.finished t op r) x') :
    ∃ res, r = Outcome.ofExcept res ∧
      op.Session cfg (session exchange (journal cfg file t tr)) res := by
  have hf : Follows cfg t (fun _ _ _ _ => True) fun op l r => op.Held cfg (session exchange l) r :=
    fun op _ _ _ => Speaks.follows (l := []) (talks_code op)
  exact h.finished hf hs (by rw [hop]; rfl)

/-- The rename of a commit fails and the sandbox is handed back. -/
theorem lifecycle_sessions_of_unpersisted : ∃ tr x x' err,
    Runs fullConfig .absent tr x ∧
    Step (machine fullConfig) x (.finished (.lifecycle "ns/p")
      (.createPod (samplePod "p" "u1" [])) (.err err)) x' ∧
    CreateSession fullConfig (samplePod "p" "u1" [])
      (session exchange (journal fullConfig .absent (.lifecycle "ns/p") tr)) (.error err) := by
  obtain ⟨tr, x, ev, x', h, hs, hev⟩ := exists_step fullConfig .absent
    (call .boot .new 10 {} ++ call (.lifecycle "ns/p") (.createPod (samplePod "p" "u1" [])) 17
      { claimed := .ok (sampleResult "s1"), written := .error "disk full" })
    (.move (.lifecycle "ns/p") (World.reply {}))
    (fun _ _ ev => rejection ev = some (.lifecycle "ns/p", .createPod (samplePod "p" "u1" []),
      .persistFailed "ns/p" "rename claims state: disk full"))
    (by decide +kernel)
  obtain rfl := rejection_eq_some hev
  obtain ⟨res, hres, hw⟩ := lifecycle_sessions h rfl hs
  cases res with
  | ok u => cases hres
  | error e =>
    cases hres
    exact ⟨tr, x, x', _, h, hs, hw⟩

end Runs

end VkSandbox
