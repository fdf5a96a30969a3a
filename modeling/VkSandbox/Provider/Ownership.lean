import VkSandbox.Provider.Types

/-!
# Provider/Ownership — who may destroy a sandbox

`provider/ownership.go`: a Pod deletion is not authority over the VM.  The owner's resource is
guessed from its kind, read once, and the reply is judged: only a bare Pod, or an owner confirmed
gone by name, in teardown, expired or replaced under a new UID, authorises a release; everything
else preserves.
-/

namespace VkSandbox

/-- `authVerdict`. -/
inductive AuthVerdict where
  | preserve | release
  deriving DecidableEq

/-- `schema.GroupVersionResource`. -/
structure GroupVersionResource where
  group : String
  version : String
  resource : String
  deriving DecidableEq

/-- `pluralResource`: the es/ies rules. -/
def pluralResource (lower : String) : String :=
  match lower.toList.reverse with
  | 's' :: _ | 'x' :: _ | 'z' :: _ | 'h' :: 'c' :: _ | 'h' :: 's' :: _ => lower ++ "es"
  | 'y' :: c :: rest =>
    if c ∈ ['a', 'e', 'i', 'o', 'u'] then lower ++ "s"
    else String.ofList (c :: rest).reverse ++ "ies"
  | _ => lower ++ "s"

/-- `ownerGVR`. -/
def ownerGVR (P : Platform) (apiVersion kind : String) : Option GroupVersionResource :=
  if kind = "" then none
  else (P.parseGroupVersion apiVersion).map fun gv =>
    ⟨gv.1, gv.2, pluralResource (P.toLower kind)⟩

/-! ## The owner read and its verdict -/

/-- A condition of an owner's status. -/
structure OwnerCondition where
  type : Option String
  reason : Option String
  deriving DecidableEq

/-- An owner object; a condition that is not a map reads as `none`. -/
structure OwnerObject where
  uid : String
  deletionTimestamp : Option Time
  conditions : List (Option OwnerCondition)
  deriving DecidableEq

/-- What reading an owner returns: a NotFound with the `Details.Name` it carries, another error, or
the object. -/
inductive OwnerRead where
  | notFound (details : Option String)
  | failed (err : String)
  | found (obj : OwnerObject)
  deriving DecidableEq

/-- `ownerExpired`: the first Ready condition has reason `SandboxExpired`. -/
def ownerExpired (obj : OwnerObject) : Bool :=
  match obj.conditions.find? fun c => c.any (·.type = some "Ready") with
  | some (some cond) => cond.reason = some "SandboxExpired"
  | _ => false

/-- `notFoundName`: a structured NotFound's `Details.Name`, empty otherwise. -/
def notFoundName (details : Option String) : String := details.getD ""

/-- `destroyAuthorized` once the owner has been read. -/
def judgeOwner (ref : OwnerReference) : OwnerRead → AuthVerdict × String
  | .notFound details =>
    if notFoundName details = ref.name then
      (.release, "owner " ++ ref.kind ++ " " ++ ref.name ++ " confirmed gone (structured NotFound)")
    else
      (.preserve, "ambiguous 404 for owner " ++ ref.kind ++ " " ++ ref.name
        ++ " (no Details.Name match): endpoint shape unverified")
  | .failed err => (.preserve, "owner query failed: " ++ err)
  | .found obj =>
    if obj.deletionTimestamp.isSome then
      (.release, "owner " ++ ref.kind ++ " " ++ ref.name ++ " in teardown (deletionTimestamp set)")
    else if ownerExpired obj then
      (.release, "owner " ++ ref.kind ++ " " ++ ref.name
        ++ " expired: the operator tore its workload down")
    else if ref.uid ≠ "" ∧ obj.uid ≠ ref.uid then
      (.release, "owner " ++ ref.kind ++ " " ++ ref.name ++
        " UID rotated: referenced generation gone")
    else
      (.preserve, "owner " ++ ref.kind ++ " " ++ ref.name
        ++ " alive: pod deletion is not VM authority")

/-- A read that proves nothing against the owner `uid` named `name`: no NotFound naming it, no
teardown, no expiry, no other UID. -/
def OwnerRead.Vouches (read : OwnerRead) (name uid : String) : Prop :=
  match read with
  | .notFound details => notFoundName details ≠ name
  | .failed _ => True
  | .found obj => obj.deletionTimestamp = none ∧ ownerExpired obj = false ∧ obj.uid = uid

instance (read : OwnerRead) (name uid : String) : Decidable (read.Vouches name uid) :=
  match read with
  | .notFound details => inferInstanceAs (Decidable (notFoundName details ≠ name))
  | .failed _ => .isTrue trivial
  | .found obj => inferInstanceAs
      (Decidable (obj.deletionTimestamp = none ∧ ownerExpired obj = false ∧ obj.uid = uid))

/-- **A read that vouches for the referenced owner preserves.** -/
theorem judgeOwner_of_vouches {ref : OwnerReference} {read : OwnerRead}
    (h : read.Vouches ref.name ref.uid) : (judgeOwner ref read).1 = .preserve := by
  cases read with
  | notFound details => simp only [OwnerRead.Vouches] at h; simp [judgeOwner, h]
  | failed err => rfl
  | found obj =>
    obtain ⟨hd, he, hu⟩ := h
    simp [judgeOwner, hd, he, hu]

end VkSandbox
