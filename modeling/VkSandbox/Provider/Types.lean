import VkSandbox.Machinery.Table

/-!
# Provider/Types — Pods, claims and the state file

The data `provider/provider.go` and `provider/create.go` work on.  A Pod is identified by its *key*
`namespace/name`; a *claim* binds a key to one sandbox of the node, and its `(id, token)` pair is
the credential that releases the sandbox.

Times are nanoseconds since Go's zero `time.Time`, so that `IsZero` is `· = 0`.
-/

namespace VkSandbox

/-- A pod key, `namespace/name`. -/
abbrev Key := String

/-- Nanoseconds since the zero `time.Time`. -/
abbrev Time := ℕ

/-- One second. -/
def second : ℕ := 1000000000

/-- One minute. -/
def minute : ℕ := 60 * second

/-! ## Pods -/

/-- `metav1.OwnerReference`; the two pointers may be nil. -/
structure OwnerReference where
  apiVersion : String
  kind : String
  name : String
  uid : String
  controller : Option Bool := none
  blockOwnerDeletion : Option Bool := none
  deriving DecidableEq

/-- A container of the Pod spec. -/
structure Container where
  name : String
  image : String
  deriving DecidableEq

/-- `corev1.PodPhase`. -/
inductive PodPhase where
  | pending | running | succeeded | failed | unknown
  deriving DecidableEq

/-- The synthetic container states a status carries. -/
inductive ContainerState where
  | running (startedAt : Time)
  | terminated (exitCode : ℕ) (reason : String) (finishedAt : Time)
  deriving DecidableEq

/-- `corev1.ContainerStatus`. -/
structure ContainerStatus where
  name : String
  ready : Bool
  state : ContainerState
  image : String
  imageID : String
  deriving DecidableEq

/-- The Pod conditions a status carries. -/
inductive PodConditionType where
  | initialized | ready | scheduled
  deriving DecidableEq

/-- `corev1.PodStatus`; `conditions` pairs a condition with whether it is `True`. -/
structure PodStatus where
  phase : PodPhase := .pending
  reason : String := ""
  message : String := ""
  hostIP : String := ""
  podIP : String := ""
  podIPs : List String := []
  startTime : Option Time := none
  conditions : List (PodConditionType × Bool) := []
  containerStatuses : List ContainerStatus := []
  deriving DecidableEq

/-- `corev1.Pod`, the fields this provider reads or writes. -/
structure Pod where
  ns : String
  name : String
  uid : String
  annotations : Table String String := ∅
  ownerReferences : List OwnerReference := []
  containers : List Container := []
  status : PodStatus := {}
  deriving DecidableEq

/-- `podKey`. -/
def podKey (ns name : String) : Key := ns ++ "/" ++ name

/-- The key of a Pod. -/
def Pod.key (pod : Pod) : Key := podKey pod.ns pod.name

/-- `metav1.GetControllerOf`: the first owner reference marked as the controller. -/
def controllerOf (pod : Pod) : Option OwnerReference :=
  pod.ownerReferences.find? (·.controller = some true)

/-- `authorityOf`: the controller's UID, else the Pod's own. -/
def authorityOf (pod : Pod) : String :=
  match controllerOf pod with
  | some ref => ref.uid
  | none => pod.uid

/-- `ann`: an annotation, an absent or empty one read as the default. -/
def ann (pod : Pod) (key dflt : String) : String :=
  match pod.annotations.lookup key with
  | some v => if v = "" then dflt else v
  | none => dflt

def annRuntime : String := "sandbox.cocoonstack.io/runtime"

def runtimeSandboxd : String := "sandboxd"

def annTemplate : String := "sandbox.cocoonstack.io/template"

def annNet : String := "sandbox.cocoonstack.io/net"

def annSize : String := "sandbox.cocoonstack.io/size"

def annTTLSeconds : String := "sandbox.cocoonstack.io/ttl-seconds"

def annClaimID : String := "sandbox.cocoonstack.io/claim-id"

/-- sandboxd's `maxTTL`, in seconds. -/
def defaultClaimTTLSeconds : ℤ := 24 * 60 * 60

/-- `podWithClaim`: the Pod, annotated with its claim id. -/
def podWithClaim (pod : Pod) (id : String) : Pod :=
  { pod with annotations := pod.annotations.insert annClaimID id }

/-! ## What sandboxd exchanges -/

/-- `sandboxd.ClaimSpec`. -/
structure ClaimSpec where
  template : String
  net : String
  size : String
  ttlSeconds : ℤ
  claimRef : String
  deriving DecidableEq

/-- `sandboxd.ClaimResult`. -/
structure ClaimResult where
  id : String
  token : String
  ownerAddr : String
  deadline : Time
  deriving DecidableEq

/-- `sandboxd.SandboxSummary`, the fields the provider reads. -/
structure SandboxSummary where
  id : String
  deadline : Time
  claimRef : String
  deriving DecidableEq

/-- `liveDeadlines`: the listed ids with their lease ends, a later row replacing an earlier one. -/
def liveDeadlines (listed : List SandboxSummary) : Table String Time :=
  listed.foldl (fun live s => live.insert s.id s.deadline) ∅

/-- The ids of a listing. -/
def listedIds (listed : List SandboxSummary) : List String := listed.map (·.id)

theorem isSome_lookup_foldl_insert (listed : List SandboxSummary) (live : Table String Time)
    (id : String) :
    ((listed.foldl (fun live s => live.insert s.id s.deadline) live).lookup id).isSome
      ↔ id ∈ listedIds listed ∨ (live.lookup id).isSome := by
  induction listed generalizing live with
  | nil => simp [listedIds]
  | cons s rest ih =>
    rw [List.foldl_cons, ih, Table.lookup_insert]
    by_cases h : id = s.id
    · simp [listedIds, h]
    · simp [listedIds, h]

/-- `live` has exactly the listed ids. -/
theorem isSome_lookup_liveDeadlines (listed : List SandboxSummary) (id : String) :
    ((liveDeadlines listed).lookup id).isSome ↔ id ∈ listedIds listed := by
  simp [liveDeadlines, isSome_lookup_foldl_insert]

/-! ## Claims -/

/-- What releases a sandbox. -/
structure Credential where
  id : String
  token : String
  deriving DecidableEq

/-- `Claim`: one pod key bound to one sandbox. -/
structure Claim where
  id : String
  token : String
  address : String := ""
  podUID : String
  authority : Option String := none
  claimedAt : Time := 0
  deadline : Time := 0
  owner : Option OwnerReference := none
  deriving DecidableEq

namespace Claim

/-- The release credential of a claim. -/
def cred (c : Claim) : Credential := ⟨c.id, c.token⟩

/-- `Claim.expired`: a known deadline that is not after `now`. -/
def expired (c : Claim) (now : Time) : Bool := c.deadline ≠ 0 && c.deadline ≤ now

/-- The authority a claim answers to: the owner that preserved it, else the one it was bound
under; `none` in a table from before the field existed. -/
def answersTo (c : Claim) : Option String :=
  match c.owner with
  | some owner => some owner.uid
  | none => c.authority

/-- `Claim.adoptableBy`. -/
def adoptableBy (c : Claim) (pod : Pod) : Bool :=
  match c.answersTo with
  | none => true
  | some want => c.podUID = pod.uid || want = authorityOf pod

/-- The row a successful `Claim` call is recorded as. -/
def ofResult (res : ClaimResult) (pod : Pod) (now : Time) : Claim where
  id := res.id
  token := res.token
  address := res.ownerAddr
  podUID := pod.uid
  authority := some (authorityOf pod)
  claimedAt := now
  deadline := res.deadline

/-- The row rebound to an adopting Pod. -/
def rebind (c : Claim) (pod : Pod) : Claim :=
  { c with podUID := pod.uid, authority := some (authorityOf pod), owner := none }

@[simp] theorem id_rebind (c : Claim) (pod : Pod) : (c.rebind pod).id = c.id := rfl

@[simp] theorem id_ofResult (res : ClaimResult) (pod : Pod) (now : Time) :
    (ofResult res pod now).id = res.id := rfl

end Claim

/-! ## The state file -/

/-- `stateFile`; a nil `Claims` map reads as the empty one. -/
structure StateFile where
  claims : Table Key Claim
  releasing : List Claim
  deriving DecidableEq

/-- `metav1.Time` marshals as RFC 3339, which drops the fraction of a second. -/
def wholeSeconds (t : Time) : Time := t / second * second

theorem wholeSeconds_idem (i : Time) : wholeSeconds (wholeSeconds i) = wholeSeconds i := by
  simp [wholeSeconds, second]

theorem le_wholeSeconds {i : Time} (h : second ≤ i) : second ≤ wholeSeconds i := by
  simp only [wholeSeconds, second] at h ⊢
  omega

/-- A claim as it comes back from the file. -/
def Claim.marshal (c : Claim) : Claim :=
  { c with claimedAt := wholeSeconds c.claimedAt, deadline := wholeSeconds c.deadline }

@[simp] theorem Claim.cred_marshal (c : Claim) : c.marshal.cred = c.cred := rfl

@[simp] theorem Claim.id_marshal (c : Claim) : c.marshal.id = c.id := rfl

/-- **JSON encode, then decode**: the table with its times in whole seconds. -/
def StateFile.marshal (st : StateFile) : StateFile where
  claims := st.claims.pick fun _ c => some c.marshal
  releasing := st.releasing.map Claim.marshal

/-- The credentials a state file holds, in its claims or its releasing list. -/
def StateFile.Holds (st : StateFile) (cr : Credential) : Prop :=
  (∃ k c, st.claims.lookup k = some c ∧ c.cred = cr) ∨ ∃ c ∈ st.releasing, c.cred = cr

theorem StateFile.holds_marshal {st : StateFile} {cr : Credential} :
    st.marshal.Holds cr ↔ st.Holds cr := by
  simp only [Holds, marshal, Table.lookup_pick, Option.bind_eq_some_iff, Option.some.injEq,
    List.mem_map]
  constructor
  · rintro (⟨k, _, ⟨c, hc, rfl⟩, rfl⟩ | ⟨_, ⟨c, hc, rfl⟩, rfl⟩)
    · exact .inl ⟨k, c, hc, rfl⟩
    · exact .inr ⟨c, hc, rfl⟩
  · rintro (⟨k, c, hc, rfl⟩ | ⟨c, hc, rfl⟩)
    · exact .inl ⟨k, c.marshal, ⟨c, hc, rfl⟩, rfl⟩
    · exact .inr ⟨c.marshal, ⟨c, hc, rfl⟩, rfl⟩

/-! ## Configuration and errors -/

/-- **What the code takes from outside**: functions of the Go library and of `apimachinery`, with
what their documentation says of them, and the location that a deadline carries.  Nothing else is
assumed of them, so every result holds for Go's Unicode tables and for any time zone. -/
structure Platform where
  /-- `strings.ToLower`. -/
  toLower : String → String
  /-- `schema.ParseGroupVersion`: group and version, or an error. -/
  parseGroupVersion : String → Option (String × String)
  /-- `strconv.IsPrint`. -/
  isPrint : Char → Bool
  /-- How many seconds east of UTC the location of a sandbox's deadline is; a row has the instant
  only. -/
  offset : (id : String) → (deadline : Time) → ℤ
  toLower_ascii : ∀ s, (∀ c ∈ s.toList, c.toNat < 128) →
    toLower s = String.ofList (s.toList.map Char.toLower)
  parse_empty : parseGroupVersion "" = some ("", "") ∧ parseGroupVersion "/" = some ("", "")
  parse_version : ∀ v, '/' ∉ v.toList → parseGroupVersion v = some ("", v)
  parse_group : ∀ g v, '/' ∉ g.toList → '/' ∉ v.toList →
    parseGroupVersion (g ++ "/" ++ v) = some (g, v)
  parse_error : ∀ s, 2 ≤ s.toList.count '/' → parseGroupVersion s = none
  isPrint_ascii : ∀ c, c.toNat < 128 → (isPrint c = true ↔ 32 ≤ c.toNat ∧ c.toNat ≠ 127)

/-- `Config`: which of its optional parts the provider was built with. -/
structure Config where
  /-- A `Lister` is set. -/
  lister : Bool
  /-- A `Dynamic` client is set. -/
  dynamic : Bool
  /-- `StatePath`. -/
  path : String
  platform : Platform

/-- There is a state file. -/
def Config.statePath (cfg : Config) : Bool := cfg.path ≠ ""

/-- `n` in hexadecimal, padded to `width` digits. -/
def hex (width n : ℕ) : String := String.ofList ((Nat.toDigits 16 n).leftpad width '0')

/-- One rune of `strconv.Quote`. -/
def quoteRune (isPrint : Char → Bool) (c : Char) : String :=
  if c.toNat = 34 then "\\\""
  else if c.toNat = 92 then "\\\\"
  else if isPrint c then c.toString
  else match c.toNat with
    | 7 => "\\a"
    | 8 => "\\b"
    | 9 => "\\t"
    | 10 => "\\n"
    | 11 => "\\v"
    | 12 => "\\f"
    | 13 => "\\r"
    | n =>
      if n < 32 ∨ n = 127 then "\\x" ++ hex 2 n
      else if n < 0x10000 then "\\u" ++ hex 4 n
      else "\\U" ++ hex 8 n

/-- `strconv.Quote`, the verb `%q`. -/
def Platform.quote (P : Platform) (s : String) : String :=
  "\"" ++ String.join (s.toList.map (quoteRune P.isPrint)) ++ "\""

/-- The errors of the lifecycle calls and of `New`, one constructor per `fmt.Errorf`; `cause` is
the text of the wrapped error. -/
inductive ProviderError where
  | wrongRuntime (key rt : String)
  | unverified (key : Key)
  | expiredUnlistable (key id cause : String)
  | stranded (key id cause : String)
  | invalidTTL (key ttl : String)
  | missingTemplate (key : Key)
  | claimFailed (key template cause : String)
  | persistFailed (key cause : String)
  | persistAndUndoFailed (key cause id undoCause : String)
  | releaseFailed (id key cause : String)
  | mkdirState (cause : String)
  | writeState (cause : String)
  | renameState (cause : String)
  | readState (path cause : String)
  | decodeState (path cause : String)
  | notWritable (cause : String)
  deriving DecidableEq

/-- The text of an error. -/
def ProviderError.text (P : Platform) : ProviderError → String
  | wrongRuntime key rt =>
    "pod " ++ key ++ " requests runtime " ++ P.quote rt ++ "; this node serves "
      ++ P.quote runtimeSandboxd
  | unverified key =>
    "pod " ++ key ++ ": a claim from a previous run is unverified and sandboxd cannot be listed; "
      ++ "refusing to claim over a possibly live sandbox"
  | expiredUnlistable key id cause =>
    "pod " ++ key ++ ": claim " ++ id ++ " is past its cached deadline and sandboxd cannot be "
      ++ "listed; refusing to replace it: " ++ cause
  | stranded key id cause =>
    "pod " ++ key ++ ": a previous sandbox " ++ id ++ " could not be returned and its credential "
      ++ "is only in memory: " ++ cause
  | invalidTTL key ttl => "pod " ++ key ++ ": invalid " ++ annTTLSeconds ++ "=" ++ P.quote ttl
  | missingTemplate key => "pod " ++ key ++ ": missing " ++ annTemplate ++ " annotation"
  | claimFailed key template cause =>
    "claim sandbox for " ++ key ++ " (template " ++ template ++ "): " ++ cause
  | persistFailed key cause => "persist claim for " ++ key ++ ": " ++ cause
  | persistAndUndoFailed key cause id undoCause =>
    "persist claim for " ++ key ++ ": " ++ cause ++ "\nrelease sandbox " ++ id ++ ": " ++ undoCause
  | releaseFailed id key cause => "release sandbox " ++ id ++ " for " ++ key ++ ": " ++ cause
  | mkdirState cause => "mkdir state dir: " ++ cause
  | writeState cause => "write claims state: " ++ cause
  | renameState cause => "rename claims state: " ++ cause
  | readState path cause => "read state " ++ path ++ ": " ++ cause
  | decodeState path cause => "decode state " ++ path ++ ": " ++ cause
  | notWritable cause => "claims state is not writable: " ++ cause

end VkSandbox
