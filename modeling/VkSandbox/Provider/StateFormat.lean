import VkSandbox.Machinery.Json
import VkSandbox.Provider.Timestamps

/-!
# Provider/StateFormat — the JSON of the state file

`stateFile` and `Claim` of `provider/provider.go` with their tags, and `metav1.OwnerReference` and
`metav1.Time` with theirs: what `write` marshals and what `loadState` unmarshals, as JSON trees.

    stateFile   {"claims": {<key>: <claim>, …}, "releasing"?: [<claim>, …]}
    Claim       {"id", "token", "address"?, "podUID", "authority"?, "claimedAt"?, "deadline"?,
                 "owner"?}

`decodeState_encodeState` is the round trip that `StateFile.marshal` stands for in the model, and
`decodeState_pruneState` says that members this version does not know change nothing.
-/

namespace VkSandbox

open Json

/-! ## Times and owners -/

/-- `omitzero` and `metav1.Time.MarshalJSON`. -/
def encodeTime (t : Time) : Option Json := if t = 0 then none else some (.str (rfc3339 t))

/-- `metav1.Time.UnmarshalJSON`. -/
def intoTime : Into Time
  | _, .null => some 0
  | _, .str s => parseRFC3339 s
  | _, _ => none

theorem carries_time {t : Time} (ht : t < endOfRFC3339) :
    Carries encodeTime intoTime 0 t (wholeSeconds t) where
  written := by
    intro v hv
    obtain ⟨-, hv⟩ := Option.ite_none_left_eq_some.mp hv
    cases hv
    exact parseRFC3339_rfc3339 ht
  omitted := by
    intro hv
    have h0 : t = 0 := by simpa [encodeTime] using hv
    rw [h0]
    rfl

/-- A `*bool` comes back, nil apart from `false`. -/
theorem carries_flag (o : Option Bool) :
    Carries (Option.map .bool) (intoPointer false intoBool) none o o :=
  carries_pointer_same (fun _ => rfl) nofun o

/-- The zero `OwnerReference`. -/
def zeroOwner : OwnerReference := { apiVersion := "", kind := "", name := "", uid := "" }

/-- The fields of `metav1.OwnerReference`. -/
def ownerColumns : List (Column OwnerReference) :=
  [.of "apiVersion" (·.apiVersion) (fun o v => { o with apiVersion := v })
    (fun s => some (.str s)) intoString,
   .of "kind" (·.kind) (fun o v => { o with kind := v }) (fun s => some (.str s)) intoString,
   .of "name" (·.name) (fun o v => { o with name := v }) (fun s => some (.str s)) intoString,
   .of "uid" (·.uid) (fun o v => { o with uid := v }) (fun s => some (.str s)) intoString,
   .of "controller" (·.controller) (fun o v => { o with controller := v })
    (Option.map .bool) (intoPointer false intoBool),
   .of "blockOwnerDeletion" (·.blockOwnerDeletion) (fun o v => { o with blockOwnerDeletion := v })
    (Option.map .bool) (intoPointer false intoBool)]

def encodeOwner (o : OwnerReference) : Json := encodeStruct ownerColumns o

def intoOwner : Into OwnerReference := intoStruct ownerColumns

/-- **An owner comes back** as it was. -/
theorem intoOwner_encodeOwner (o : OwnerReference) :
    intoOwner zeroOwner (encodeOwner o) = some o := by
  rw [intoOwner, encodeOwner, intoStruct_encodeStruct (by decide +kernel)]
  exact foldlM_carry (carries_string _ _) rfl <| foldlM_carry (carries_string _ _) rfl <|
    foldlM_carry (carries_string _ _) rfl <| foldlM_carry (carries_string _ _) rfl <|
    foldlM_carry (carries_flag _) rfl <| foldlM_carry (carries_flag _) rfl rfl

/-! ## Claims -/

/-- The zero `Claim`. -/
def zeroClaim : Claim := { id := "", token := "", podUID := "" }

/-- The fields of `Claim`, with their tags. -/
def claimColumns : List (Column Claim) :=
  [.of "id" (·.id) (fun c v => { c with id := v }) (fun s => some (.str s)) intoString,
   .of "token" (·.token) (fun c v => { c with token := v }) (fun s => some (.str s)) intoString,
   .of "address" (·.address) (fun c v => { c with address := v }) nonempty intoString,
   .of "podUID" (·.podUID) (fun c v => { c with podUID := v }) (fun s => some (.str s)) intoString,
   .of "authority" (·.authority) (fun c v => { c with authority := v }) (Option.map .str)
    (intoPointer "" intoString),
   .of "claimedAt" (·.claimedAt) (fun c v => { c with claimedAt := v }) encodeTime intoTime,
   .of "deadline" (·.deadline) (fun c v => { c with deadline := v }) encodeTime intoTime,
   .of "owner" (·.owner) (fun c v => { c with owner := v }) (Option.map encodeOwner)
    (intoPointer zeroOwner intoOwner)]

def encodeClaim (c : Claim) : Json := encodeStruct claimColumns c

def intoClaim : Into Claim := intoStruct claimColumns

/-- RFC 3339 has a text for the times of a claim. -/
def Claim.Storable (c : Claim) : Prop := c.claimedAt < endOfRFC3339 ∧ c.deadline < endOfRFC3339

instance (c : Claim) : Decidable c.Storable := inferInstanceAs (Decidable (_ ∧ _))

theorem carries_authority (o : Option String) :
    Carries (Option.map .str) (intoPointer "" intoString) none o o :=
  carries_pointer_same (fun _ => rfl) nofun o

theorem carries_owner (o : Option OwnerReference) :
    Carries (Option.map encodeOwner) (intoPointer zeroOwner intoOwner) none o o :=
  carries_pointer_same intoOwner_encodeOwner nofun o

/-- **A claim comes back**, its times in whole seconds. -/
theorem intoClaim_encodeClaim {c : Claim} (h : c.Storable) :
    intoClaim zeroClaim (encodeClaim c) = some c.marshal := by
  rw [intoClaim, encodeClaim, intoStruct_encodeStruct (by decide +kernel)]
  exact foldlM_carry (carries_string _ _) rfl <| foldlM_carry (carries_string _ _) rfl <|
    foldlM_carry (carries_nonempty _) rfl <| foldlM_carry (carries_string _ _) rfl <|
    foldlM_carry (carries_authority _) rfl <| foldlM_carry (carries_time h.1) rfl <|
    foldlM_carry (carries_time h.2) rfl <| foldlM_carry (carries_owner _) rfl rfl

/-! ## The file -/

/-- The fields of `stateFile`. -/
def stateColumns : List (Column StateFile) :=
  [.of "claims" (·.claims) (fun st v => { st with claims := v })
    (fun t => some (encodeMap encodeClaim t))
    (intoMap zeroClaim intoClaim),
   .of "releasing" (·.releasing) (fun st v => { st with releasing := v })
     (nonemptySlice encodeClaim)
    (intoSlice zeroClaim intoClaim)]

/-- `json.Marshal(st)`. -/
def encodeState (st : StateFile) : Json := encodeStruct stateColumns st

/-- `json.Unmarshal(b, &st)`; `none` when it fails. -/
def decodeState (j : Json) : Option StateFile := intoStruct stateColumns ⟨∅, []⟩ j

/-- RFC 3339 has a text for all times of a table. -/
structure StateFile.Storable (st : StateFile) : Prop where
  claims : ∀ k ∈ st.claims.keys, ∀ c ∈ st.claims.lookup k, c.Storable
  releasing : ∀ c ∈ st.releasing, c.Storable

instance (st : StateFile) : Decidable st.Storable :=
  decidable_of_iff ((∀ k ∈ st.claims.keys, ∀ c ∈ st.claims.lookup k, c.Storable) ∧
    ∀ c ∈ st.releasing, c.Storable) ⟨fun h => ⟨h.1, h.2⟩, fun h => ⟨h.claims, h.releasing⟩⟩

/-- **Marshal, then unmarshal**: what `StateFile.marshal` stands for. -/
theorem decodeState_encodeState {st : StateFile} (h : st.Storable) :
    decodeState (encodeState st) = some st.marshal := by
  have hclaims : Carries (fun t => some (encodeMap encodeClaim t)) (intoMap zeroClaim intoClaim) ∅
      st.claims (st.claims.pick fun _ c => some c.marshal) := by
    refine carries_always (intoMap_encodeMap fun k c hc => intoClaim_encodeClaim ?_)
    exact h.claims k (Finmap.mem_keys.mpr (Finmap.mem_of_lookup_eq_some hc)) c hc
  have hreleasing : Carries (nonemptySlice encodeClaim) (intoSlice zeroClaim intoClaim) []
      st.releasing (st.releasing.map Claim.marshal) :=
    carries_slice fun c hc => intoClaim_encodeClaim (h.releasing c hc)
  rw [decodeState, encodeState, intoStruct_encodeStruct (by decide +kernel)]
  exact foldlM_carry hclaims rfl <| foldlM_carry hreleasing rfl rfl

/-! ## Members of other versions -/

/-- An owner without the members this version does not know. -/
def pruneOwner : Json → Json := pruneStruct (ownerColumns.map fun c => (c, id))

/-- How each member of a claim is pruned. -/
def claimPrunes : List (Json → Json) := [id, id, id, id, id, id, id, pruneOwner]

/-- A claim without the members this version does not know. -/
def pruneClaim : Json → Json := pruneStruct (claimColumns.zip claimPrunes)

/-- A state file without the members this version does not know. -/
def pruneState : Json → Json :=
  pruneStruct (stateColumns.zip [pruneMap pruneClaim, pruneSlice pruneClaim])

theorem respects_owner : Respects intoOwner pruneOwner := by
  have hcols : (ownerColumns.map fun c => (c, (id : Json → Json))).map Prod.fst = ownerColumns :=
    rfl
  rw [intoOwner, ← hcols]
  refine respects_struct fun c hc => ?_
  obtain ⟨c', -, rfl⟩ := List.mem_map.mp hc
  exact respects_id _

theorem pruneOwner_eq_null (v : Json) : pruneOwner v = .null ↔ v = .null := by
  cases v <;> simp [pruneOwner, pruneStruct]

theorem respects_claim : Respects intoClaim pruneClaim := by
  have hcols : (claimColumns.zip claimPrunes).map Prod.fst = claimColumns := rfl
  rw [intoClaim, ← hcols]
  refine respects_struct ?_
  simp only [claimColumns, claimPrunes, List.zip_cons_cons, List.zip_nil_right,
    List.forall_mem_cons]
  exact ⟨respects_id _, respects_id _, respects_id _, respects_id _, respects_id _, respects_id _,
    respects_id _, respects_of (respects_pointer respects_owner pruneOwner_eq_null),
    List.forall_mem_nil _⟩

/-- **Members this version does not know change nothing**, wherever they stand. -/
theorem decodeState_pruneState (j : Json) : decodeState (pruneState j) = decodeState j := by
  refine (respects_struct (fun c hc => ?_) : Respects (intoStruct
    ((stateColumns.zip [pruneMap pruneClaim, pruneSlice pruneClaim]).map Prod.fst)) pruneState) _ j
  revert c hc
  simp only [stateColumns, List.zip_cons_cons, List.zip_nil_right, List.forall_mem_cons]
  exact ⟨respects_of (respects_map respects_claim), respects_of (respects_slice respects_claim),
    List.forall_mem_nil _⟩

end VkSandbox
