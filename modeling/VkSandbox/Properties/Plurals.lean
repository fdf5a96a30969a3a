import VkSandbox.Properties.Scenario

/-!
# Properties/Plurals — what a guessed resource name can do

`ownerGVR` derives the resource of an owner from its kind by English plural rules, while a cluster
may serve any kind under any name.  So the read may reach

    nothing at all      a 404 without a name               preserve
    the owner's kind    the owner itself                    preserve
    another kind        its object of that name, or none    whatever that says

and only in the last case can a live owner lose its sandbox.
-/

namespace VkSandbox

open Interleave

/-! ## Clusters -/

/-- A cluster: which kind, if any, each resource name of a group and version serves, and the objects
there are. -/
structure Cluster where
  served : GroupVersionResource → Option String
  object : (group version kind ns name : String) → Option OwnerObject

namespace Cluster

/-- The API server's answer to a read: a 404 without `Details.Name` where nothing is served, a
NotFound that names the object where there is none.  The dynamic client sends no request without a
name. -/
def get (cl : Cluster) (gvr : GroupVersionResource) (ns name : String) : OwnerRead :=
  if name = "" then .failed "name is required"
  else match cl.served gvr with
    | none => .notFound none
    | some kind =>
      match cl.object gvr.group gvr.version kind ns name with
      | none => .notFound (some name)
      | some obj => .found obj

/-- A world whose owner reads go to the cluster. -/
def reply (cl : Cluster) : (e : Request) → Reply e
  | .getOwner _ gvr ns name => cl.get gvr ns name
  | e => World.reply {} e

/-- An owner object that gives no reason to destroy anything: neither deleted nor expired. -/
def Healthy (obj : OwnerObject) : Prop := obj.deletionTimestamp = none ∧ ownerExpired obj = false

instance (obj : OwnerObject) : Decidable (Healthy obj) :=
  inferInstanceAs (Decidable (_ ∧ _))

/-- The referenced owner exists in namespace `ns` and is healthy. -/
def Lives (cl : Cluster) (P : Platform) (ns : String) (ref : OwnerReference) : Prop :=
  ∃ gv obj, P.parseGroupVersion ref.apiVersion = some gv ∧
    cl.object gv.1 gv.2 ref.kind ns ref.name = some obj ∧ obj.uid = ref.uid ∧ Healthy obj

/-- **Where the guess leads**: a resource that does not exist, the owner's own kind, or another kind
with an object that could pass for the owner. -/
def GuessHarmless (cl : Cluster) (P : Platform) (ns : String) (ref : OwnerReference) : Prop :=
  ∀ gvr, ownerGVR P ref.apiVersion ref.kind = some gvr → ∀ kind, cl.served gvr = some kind →
    kind = ref.kind ∨ ref.name = "" ∨
      ∃ obj, cl.object gvr.group gvr.version kind ns ref.name = some obj ∧
        Healthy obj ∧ (ref.uid = "" ∨ obj.uid = ref.uid)

end Cluster

/-! ## Verdicts -/

variable {cfg : Config} {key : Key} {ns : String} {ref : OwnerReference} {cl : Cluster}

/-- The verdict of `destroyAuthorized` in a cluster. -/
def verdictIn (cl : Cluster) (cfg : Config) (key : Key) (ns : String) (ref : OwnerReference) :
    AuthVerdict :=
  ((destroyAuthorized cfg key ns (some ref)).against cl.reply {}).1

/-- What a read must say to preserve. -/
theorem judgeOwner_preserves_iff {read : OwnerRead} : (judgeOwner ref read).1 = .preserve ↔
    match read with
    | .notFound details => notFoundName details ≠ ref.name
    | .failed _ => True
    | .found obj => Cluster.Healthy obj ∧ (ref.uid = "" ∨ obj.uid = ref.uid) := by
  cases read with
  | notFound details =>
    simp only [judgeOwner]
    split <;> simp_all
  | failed err => simp [judgeOwner]
  | found obj =>
    simp only [judgeOwner, Cluster.Healthy]
    cases hd : obj.deletionTimestamp with
    | some _ => simp
    | none =>
      cases he : ownerExpired obj with
      | true => simp
      | false =>
        by_cases hu : ref.uid ≠ "" ∧ obj.uid ≠ ref.uid
        · simp [hu]
        · have hor : ref.uid = "" ∨ obj.uid = ref.uid := by tauto
          simp [hu, hor]

/-- `destroyAuthorized` asks the cluster for the resource it derives, or preserves. -/
theorem verdictIn_eq : verdictIn cl cfg key ns ref =
    match if cfg.dynamic then ownerGVR cfg.platform ref.apiVersion ref.kind else none with
    | none => .preserve
    | some gvr => (judgeOwner ref (cl.get gvr ns ref.name)).1 := by
  unfold verdictIn destroyAuthorized
  cases cfg.dynamic with
  | false => rfl
  | true =>
    cases hg : ownerGVR cfg.platform ref.apiVersion ref.kind with
    | none => simp [hg]; rfl
    | some gvr => simp [hg]; rfl

/-- The resource derived for a reference is in the group and version it names. -/
theorem ownerGVR_eq_some {P : Platform} {gvr : GroupVersionResource} {gv : String × String}
    (h : ownerGVR P ref.apiVersion ref.kind = some gvr)
    (hgv : P.parseGroupVersion ref.apiVersion = some gv) :
    gvr.group = gv.1 ∧ gvr.version = gv.2 := by
  unfold ownerGVR at h
  split at h
  · cases h
  · rw [hgv, Option.map_some] at h
    cases h
    exact ⟨rfl, rfl⟩

/-- **A live owner keeps its sandbox exactly if the guess is harmless.** -/
theorem guessed_plural_preserves_iff (h : cl.Lives cfg.platform ns ref) :
    verdictIn cl cfg key ns ref = .preserve ↔
      cfg.dynamic = false ∨ cl.GuessHarmless cfg.platform ns ref := by
  obtain ⟨gv, owner, hgv, hobj, huid, hhealthy⟩ := h
  rw [verdictIn_eq]
  cases cfg.dynamic with
  | false => simp
  | true =>
    simp only [if_true, Bool.true_eq_false, false_or]
    cases hg : ownerGVR cfg.platform ref.apiVersion ref.kind with
    | none => simp [Cluster.GuessHarmless, hg]
    | some gvr =>
      obtain ⟨hgroup, hversion⟩ := ownerGVR_eq_some hg hgv
      simp only [judgeOwner_preserves_iff, Cluster.GuessHarmless, hg, Option.some.injEq, forall_eq',
        Cluster.get]
      by_cases hname : ref.name = ""
      · simp [hname]
      cases hserved : cl.served gvr with
      | none => simp [hname, notFoundName, Ne.symm hname]
      | some kind =>
        -- the owner's own kind answers with the owner
        have hown : kind = ref.kind →
            cl.object gvr.group gvr.version kind ns ref.name = some owner := by
          rintro rfl
          rw [hgroup, hversion]
          exact hobj
        cases hread : cl.object gvr.group gvr.version kind ns ref.name with
        | none =>
          have hne : kind ≠ ref.kind := fun hk => by
            rw [hown hk] at hread
            cases hread
          simp [hname, notFoundName, hread, hne]
        | some obj =>
          simp only [hname, if_false, hread, Option.some.injEq, forall_eq', false_or]
          refine ⟨fun hok => .inr ⟨obj, rfl, hok⟩, ?_⟩
          rintro (hk | ⟨_, rfl, hok⟩)
          · obtain rfl : owner = obj := Option.some.inj ((hown hk).symm.trans hread)
            exact ⟨hhealthy, .inr huid⟩
          · exact hok

/-- A cluster with one Widget, served under `widgetry`; `widgets` serves the given kind. -/
def widgetCluster (kind : String) : Cluster where
  served gvr :=
    if gvr = ⟨"example.io", "v1", "widgetry"⟩ then some "Widget"
    else if gvr = ⟨"example.io", "v1", "widgets"⟩ then some kind else none
  object group version kind ns name :=
    if (group, version, kind, ns, name) = ("example.io", "v1", "Widget", "ns", "w") then
      some ⟨"uid-w", none, []⟩
    else none

/-- A reference to that Widget. -/
def widgetRef : OwnerReference := ⟨"example.io/v1", "Widget", "w", "uid-w", some true, some true⟩

theorem parse_widgetRef (P : Platform) :
    P.parseGroupVersion widgetRef.apiVersion = some ("example.io", "v1") := by
  have hsplit : widgetRef.apiVersion = "example.io" ++ "/" ++ "v1" := by decide
  rw [hsplit]
  exact P.parse_group _ _ (by decide) (by decide)

/-- Its kind is read as `widgets`, whatever the platform. -/
theorem ownerGVR_widgetRef (P : Platform) : ownerGVR P widgetRef.apiVersion widgetRef.kind =
    some ⟨"example.io", "v1", "widgets"⟩ := by
  have hlower : P.toLower widgetRef.kind = "widget" :=
    (P.toLower_ascii _ (by simp [widgetRef])).trans rfl
  rw [ownerGVR, if_neg (by decide), parse_widgetRef, Option.map_some, hlower]
  decide

theorem widgetCluster_lives (P : Platform) (kind : String) :
    (widgetCluster kind).Lives P "ns" widgetRef :=
  ⟨("example.io", "v1"), ⟨"uid-w", none, []⟩, parse_widgetRef P,
    by simp [widgetCluster, widgetRef], rfl, by decide⟩

/-- Where `widgets` serves Widgets, the Widget's sandbox is preserved. -/
theorem guessed_plural_preserves_iff_of_widget :
    (widgetCluster "Widget").Lives fullConfig.platform "ns" widgetRef ∧
    verdictIn (widgetCluster "Widget") fullConfig "ns/p" "ns" widgetRef = .preserve := by
  refine ⟨widgetCluster_lives _ _,
    (guessed_plural_preserves_iff (widgetCluster_lives _ _)).mpr (.inr ?_)⟩
  intro gvr hgvr kind hkind
  rw [ownerGVR_widgetRef] at hgvr
  cases hgvr
  left
  have hserved : (widgetCluster "Widget").served ⟨"example.io", "v1", "widgets"⟩ =
      some "Widget" := by
    decide +kernel
  exact Option.some.inj (hkind.symm.trans hserved)

/-- Where `widgets` serves Gadgets, the Widget's sandbox is released, on every platform. -/
theorem verdictIn_gadgets (hdyn : cfg.dynamic = true) :
    verdictIn (widgetCluster "Gadget") cfg key "ns" widgetRef = .release := by
  rw [verdictIn_eq, hdyn, if_pos rfl, ownerGVR_widgetRef]
  decide +kernel

/-- **A live owner's sandbox is released** where its guessed plural is another kind's. -/
theorem guessed_plural_releases_live_owner :
    (widgetCluster "Gadget").Lives fullConfig.platform "ns" widgetRef ∧
    verdictIn (widgetCluster "Gadget") fullConfig "ns/p" "ns" widgetRef = .release :=
  ⟨widgetCluster_lives _ _, verdictIn_gadgets rfl⟩

end VkSandbox
