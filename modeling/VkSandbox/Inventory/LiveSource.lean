import Mathlib.Data.String.Basic
import VkSandbox.Machinery.Sorting
import VkSandbox.Provider.Types

/-!
# Inventory/LiveSource — the entries of a node's inventory

`LiveSandboxes` turns the sandboxd index into entries, joins each with the address the provider
holds for it, and sorts.

    row ─EntryFromSummary─▸ entry ─addrByID[row.ID]─▸ entry with address ─SortFunc by Name─▸ list

The sort key is the entry's name: the claim reference, and the sandbox id where there is none.
Every claim of the provider carries its pod key as claim reference, so a sandbox that waits for its
release and its successor at the key have one name.  Then their order is the listing's.
`live_sandboxes_canonical_iff` is the exact condition under which the order of the listing, and the
order in which Go ranges over the claims, do not show.
-/

namespace VkSandbox

/-! ## Rows and entries -/

/-- `sandboxd.SandboxSummary` with the fields the inventory reads besides. -/
structure LiveRow extends SandboxSummary where
  claimedAt : Time := 0
  hibernated : Bool := false
  template : String := ""
  deriving DecidableEq

/-- The name an entry gets: the claim reference, else the sandbox id. -/
def LiveRow.name (row : LiveRow) : String := if row.claimRef = "" then row.id else row.claimRef

/-- `scale.InventoryEntry`. -/
structure InventoryEntry where
  name : String
  id : String
  phase : String
  claimRef : String
  address : String := ""
  deadline : Option Time := none
  claimedAt : Option Time := none
  template : String := ""
  deriving DecidableEq

/-- `scale.EntryFromSummary` is another module's.  What the inventory needs of it is the name, and
that an entry carries the id of its sandbox: "sandboxd's own claim id, which is the handle the
node's release verb needs". -/
structure EntryMapping where
  entryFromSummary : LiveRow → InventoryEntry
  name_eq : ∀ row, (entryFromSummary row).name = row.name
  id_eq : ∀ row, (entryFromSummary row).id = row.id

/-- A time that is absent when zero. -/
def nonZero (t : Time) : Option Time := if t = 0 then none else some t

/-- The entry of a row as the documents and `TestLiveSandboxes` describe it: sandboxd's own claim
id, the name as claim reference, the phase, the lease deadline and the claim time. -/
def EntryMapping.documented : EntryMapping where
  entryFromSummary row :=
    { name := row.name
      id := row.id
      phase := if row.hibernated then "Hibernated" else "Running"
      claimRef := row.name
      deadline := nonZero row.deadline
      claimedAt := nonZero row.claimedAt
      template := row.template }
  name_eq _ := rfl
  id_eq _ := rfl

/-! ## Addresses -/

/-- `ClaimAddresses`: the id of each claim that has an address, with the address.  It ranges over
the claims in `order`; a later claim of an id replaces an earlier one. -/
def claimAddresses (claims : Table Key Claim) (order : List Key) : Table String String :=
  order.foldl (fun out k => match claims.lookup k with
    | some c => if c.address ≠ "" then out.insert c.id c.address else out
    | none => out) ∅

/-- The claim at `k`, if it has an address. -/
def addressed (claims : Table Key Claim) (k : Key) : Option Claim :=
  (claims.lookup k).filter fun c => c.address ≠ ""

/-- Some claim holds the sandbox `id` at the address `a`. -/
def HasAddress (claims : Table Key Claim) (id a : String) : Prop :=
  ∃ k c, addressed claims k = some c ∧ c.id = id ∧ c.address = a

variable {claims : Table Key Claim} {order order' : List Key} {id a : String} {k : Key} {c : Claim}

theorem addressed_eq_some :
    addressed claims k = some c ↔ claims.lookup k = some c ∧ c.address ≠ "" := by
  simp [addressed, Option.filter_eq_some_iff]

theorem claimAddresses_eq_build :
    claimAddresses claims order
      = Table.build (addressed claims) (fun _ c => c.id) (fun _ c => c.address) order ∅ := by
  refine Table.foldl_eq_build (fun out k c hc => ?_) fun out k hk => ?_
  · obtain ⟨hc, ha⟩ := addressed_eq_some.mp hc
    rw [hc]
    exact if_pos ha
  · cases hc : claims.lookup k with
    | none => rfl
    | some c =>
      have ha : c.address = "" := by simpa [addressed, hc] using hk
      exact if_neg (not_not_intro ha)

theorem hasAddress_of_lookup (h : (claimAddresses claims order).lookup id = some a) :
    HasAddress claims id a := by
  rw [claimAddresses_eq_build] at h
  rcases Table.lookup_build h with h | ⟨k, -, c, hc, hid, ha⟩
  · cases h
  · exact ⟨k, c, hc, hid, ha⟩

theorem HasAddress.isSome_lookup (h : HasAddress claims id a)
    (ho : Table.Ranges claims.keys order) :
    ((claimAddresses claims order).lookup id).isSome := by
  obtain ⟨k, c, hc, rfl, -⟩ := h
  have hk : k ∈ order := by
    rw [ho.mem_iff, Finmap.mem_keys]
    exact Finmap.mem_of_lookup_eq_some (addressed_eq_some.mp hc).1
  rw [claimAddresses_eq_build]
  exact Table.isSome_build hk hc

/-- A sandbox that is held at one address only has that one, whatever the order of the range. -/
theorem lookup_claimAddresses_congr (ho : Table.Ranges claims.keys order)
    (ho' : Table.Ranges claims.keys order')
    (hone : ∀ a b, HasAddress claims id a → HasAddress claims id b → a = b) :
    (claimAddresses claims order).lookup id = (claimAddresses claims order').lookup id := by
  have hsome : ∀ {o o'}, Table.Ranges claims.keys o' → ∀ {a},
      (claimAddresses claims o).lookup id = some a →
      (claimAddresses claims o').lookup id = some a := by
    intro o o' ho' a ha
    obtain ⟨b, hb⟩ := Option.isSome_iff_exists.mp ((hasAddress_of_lookup ha).isSome_lookup ho')
    rw [hb, hone a b (hasAddress_of_lookup ha) (hasAddress_of_lookup hb)]
  exact Option.ext fun a => ⟨hsome ho', hsome ho⟩

/-- Two claims with addresses at the end of the range. -/
theorem claimAddresses_append_two {rest : List Key} {k₁ k₂ : Key} {c₁ c₂ : Claim}
    (h₁ : addressed claims k₁ = some c₁) (h₂ : addressed claims k₂ = some c₂) :
    claimAddresses claims (rest ++ [k₁, k₂])
      = ((claimAddresses claims rest).insert c₁.id c₁.address).insert c₂.id c₂.address := by
  obtain ⟨h₁, ha₁⟩ := addressed_eq_some.mp h₁
  obtain ⟨h₂, ha₂⟩ := addressed_eq_some.mp h₂
  simp only [claimAddresses, List.foldl_append, List.foldl_cons, List.foldl_nil, h₁, h₂]
  rw [if_pos ha₁, if_pos ha₂]

/-- Some range over the claims ends with any two of them. -/
theorem exists_ranges {k₁ k₂ : Key} (h₁ : k₁ ∈ claims.keys) (h₂ : k₂ ∈ claims.keys)
    (hne : k₁ ≠ k₂) : ∃ rest, Table.Ranges claims.keys (rest ++ [k₁, k₂]) := by
  refine ⟨((claims.keys.erase k₁).erase k₂).toList, ?_, ?_⟩
  · refine List.nodup_append.mpr ⟨Finset.nodup_toList _, by simp [hne], fun k hk k' hk' => ?_⟩
    rintro rfl
    simp only [Finset.mem_toList, Finset.mem_erase] at hk
    simp [hk.1, hk.2.1] at hk'
  · ext k
    simp only [List.mem_toFinset, List.mem_append, Finset.mem_toList, Finset.mem_erase]
    by_cases hk₁ : k = k₁
    · simp [hk₁, h₁]
    by_cases hk₂ : k = k₂
    · simp [hk₂, h₂]
    simp [hk₁, hk₂]

/-! ## The list -/

/-- One round of the loop: the entry of a row with the address held for it. -/
def liveEntry (entry : EntryMapping) (addrByID : Table String String) (row : LiveRow) :
    InventoryEntry :=
  { entry.entryFromSummary row with address := (addrByID.lookup row.id).getD "" }

/-- What `LiveSandboxes` makes of a listing: one entry for each row, sorted by name. -/
def liveEntries (sort : ComparisonSort String) (entry : EntryMapping)
    (addrByID : Table String String) (listed : List LiveRow) : List InventoryEntry :=
  sort.sort (·.name) (listed.map (liveEntry entry addrByID))

section Canonical

variable {sort : ComparisonSort String} {entry : EntryMapping} {addrByID : Table String String}
  {listed listed' : List LiveRow} {row : LiveRow}

@[simp] theorem name_liveEntry : (liveEntry entry addrByID row).name = row.name := entry.name_eq row

@[simp] theorem id_liveEntry : (liveEntry entry addrByID row).id = row.id := entry.id_eq row

theorem liveEntries_eq_map : liveEntries sort entry addrByID listed
    = (sort.sort LiveRow.name listed).map (liveEntry entry addrByID) := by
  have hname : InventoryEntry.name ∘ liveEntry entry addrByID = LiveRow.name :=
    funext fun _ => name_liveEntry
  rw [liveEntries, sort.natural, hname]

/-- A node that lists no two rows of one name, and a provider that holds no listed sandbox at two
addresses, leave `LiveSandboxes` one list. -/
theorem liveEntries_eq (hp : listed'.Perm listed) (ho : Table.Ranges claims.keys order)
    (ho' : Table.Ranges claims.keys order')
    (hone : ∀ row ∈ listed, ∀ a b, HasAddress claims row.id a → HasAddress claims row.id b → a = b)
    (hname : ∀ row ∈ listed, ∀ row' ∈ listed, row.name = row'.name →
      liveEntry entry (claimAddresses claims order) row
        = liveEntry entry (claimAddresses claims order) row') :
    liveEntries sort entry (claimAddresses claims order') listed'
      = liveEntries sort entry (claimAddresses claims order) listed := by
  have haddr : liveEntries sort entry (claimAddresses claims order') listed'
      = liveEntries sort entry (claimAddresses claims order) listed' := by
    refine congrArg (sort.sort _) (List.map_inj_left.mpr fun row hrow => ?_)
    rw [liveEntry, liveEntry, lookup_claimAddresses_congr ho' ho (hone row (hp.mem_iff.mp hrow))]
  rw [haddr, liveEntries_eq_map, liveEntries_eq_map]
  exact sort.map_sort_eq hp hname

/-- A list that does not depend on the order of the range shows each row at one address. -/
theorem address_unique (hids : (listed.map (·.id)).Nodup)
    (h : ∀ order order', Table.Ranges claims.keys order → Table.Ranges claims.keys order' →
      liveEntries sort entry (claimAddresses claims order') listed
        = liveEntries sort entry (claimAddresses claims order) listed)
    (hrow : row ∈ listed) {a b : String} (ha : HasAddress claims row.id a)
    (hb : HasAddress claims row.id b) : a = b := by
  obtain ⟨k₁, c₁, h₁, hid₁, rfl⟩ := ha
  obtain ⟨k₂, c₂, h₂, hid₂, rfl⟩ := hb
  by_cases hne : k₁ = k₂
  · subst hne
    cases h₁.symm.trans h₂
    rfl
  -- end the range with the two claims, in either order: only the address of `row` changes
  have hkey : ∀ {k c}, addressed claims k = some c → k ∈ claims.keys := fun hc =>
    Finmap.mem_keys.mpr (Finmap.mem_of_lookup_eq_some (addressed_eq_some.mp hc).1)
  obtain ⟨rest, ho⟩ := exists_ranges (hkey h₁) (hkey h₂) hne
  have hlist := h _ _ ho (ho.perm ((List.Perm.swap k₁ k₂ []).append_left rest))
  rw [claimAddresses_append_two h₁ h₂, claimAddresses_append_two h₂ h₁, hid₁, hid₂] at hlist
  have hperm := (sort.perm _ _).symm.trans ((List.Perm.of_eq hlist).trans (sort.perm _ _))
  have heq := (List.Nodup.of_map _ hids).eq_of_map_perm_map hrow (fun row' hrow' hne' => ?_) hperm
  · have haddr := congrArg InventoryEntry.address heq
    simpa [liveEntry, Table.lookup_insert] using haddr
  · have hid : row'.id ≠ row.id := fun hid => hne' (List.inj_on_of_nodup_map hids hrow' hrow hid)
    simp [liveEntry, hid]

/-- Rows of a listing with distinct ids have distinct entries. -/
theorem row_eq_of_liveEntry_eq (hids : (listed.map (·.id)).Nodup) {row' : LiveRow}
    (hrow : row ∈ listed) (hrow' : row' ∈ listed)
    (h : liveEntry entry addrByID row = liveEntry entry addrByID row') : row = row' := by
  have hid := congrArg InventoryEntry.id h
  rw [id_liveEntry, id_liveEntry] at hid
  exact List.inj_on_of_nodup_map hids hrow hrow' hid

/-- **When the published entry list is canonical.**  Of a listing with distinct ids, `LiveSandboxes`
makes one list, for every order of the listing and of the range over the claims, if and only if no
listed sandbox is held at two addresses and no two listed rows have one name. -/
theorem live_sandboxes_canonical_iff (sort : ComparisonSort String) (entry : EntryMapping)
    (claims : Table Key Claim) (listed : List LiveRow) (hids : (listed.map (·.id)).Nodup) :
    (∀ listed' order order', listed'.Perm listed → Table.Ranges claims.keys order →
        Table.Ranges claims.keys order' →
      liveEntries sort entry (claimAddresses claims order') listed'
        = liveEntries sort entry (claimAddresses claims order) listed) ↔
    (∀ row ∈ listed, ∀ a b, HasAddress claims row.id a → HasAddress claims row.id b → a = b) ∧
    ∀ row ∈ listed, ∀ row' ∈ listed, row.name = row'.name → row = row' := by
  constructor
  · intro h
    refine ⟨fun row hrow a b => address_unique hids
      (fun o o' => h listed o o' (List.Perm.refl _)) hrow,
      fun row hrow row' hrow' hname => ?_⟩
    have ho : Table.Ranges claims.keys claims.keys.toList :=
      ⟨Finset.nodup_toList _, Finset.toList_toFinset _⟩
    have hentry : liveEntry entry (claimAddresses claims claims.keys.toList) row
        = liveEntry entry (claimAddresses claims claims.keys.toList) row' := by
      refine (sort.map_sort_canonical_iff (List.Nodup.of_map _ hids)).mp (fun listed' hp => ?_)
        row hrow row' hrow' hname
      rw [← liveEntries_eq_map, ← liveEntries_eq_map]
      exact h listed' _ _ hp ho ho
    exact row_eq_of_liveEntry_eq hids hrow hrow' hentry
  · rintro ⟨hone, hname⟩ listed' order order' hp ho ho'
    refine liveEntries_eq hp ho ho' hone fun row hrow row' hrow' hn => ?_
    rw [hname row hrow row' hrow' hn]

end Canonical

/-- A listed sandbox. -/
def sampleRow (id claimRef : String) : LiveRow := { id := id, claimRef := claimRef, deadline := 0 }

/-- The provider holds `s2` for `ns/p`. -/
def sampleHeld : Table Key Claim :=
  Finmap.singleton "ns/p"
    { id := "s2", token := "t2", address := "10.0.0.5:7777", podUID := "uid-2" }

theorem hasAddress_sampleHeld (h : HasAddress sampleHeld id a) : a = "10.0.0.5:7777" := by
  obtain ⟨k, c, hc, -, rfl⟩ := h
  have hk := Finmap.lookup_eq_some_iff.mp (addressed_eq_some.mp hc).1
  cases Multiset.mem_singleton.mp hk
  rfl

/-- Two sandboxes of two pod keys, one of them held at an address. -/
theorem live_sandboxes_canonical_of_two_names :
    liveEntries .insertion .documented (claimAddresses sampleHeld ["ns/p"])
        [sampleRow "s2" "ns/p", sampleRow "s1" "ns/q"]
      = liveEntries .insertion .documented (claimAddresses sampleHeld ["ns/p"])
        [sampleRow "s1" "ns/q", sampleRow "s2" "ns/p"] := by
  have hnames : ∀ row ∈ [sampleRow "s1" "ns/q", sampleRow "s2" "ns/p"],
      ∀ row' ∈ [sampleRow "s1" "ns/q", sampleRow "s2" "ns/p"],
      row.name = row'.name → row = row' := by decide
  have ho : Table.Ranges sampleHeld.keys ["ns/p"] := ⟨by decide, by decide⟩
  refine (live_sandboxes_canonical_iff _ _ _ _ (by decide)).mpr
    ⟨fun row _ a b ha hb => (hasAddress_sampleHeld ha).trans (hasAddress_sampleHeld hb).symm,
      hnames⟩ _ _ _ (List.Perm.swap _ _ _) ho ho

/-- `s1` waits for its release and `s2` has taken its place at `ns/p`: the published order is the
listing's. -/
theorem listing_order_published :
    ∃ listed listed' : List LiveRow, listed'.Perm listed ∧ (listed.map (·.id)).Nodup ∧
      (∀ row ∈ listed, row.claimRef = "ns/p") ∧ Table.Ranges sampleHeld.keys ["ns/p"] ∧
      liveEntries .insertion .documented (claimAddresses sampleHeld ["ns/p"]) listed'
        ≠ liveEntries .insertion .documented (claimAddresses sampleHeld ["ns/p"]) listed := by
  refine ⟨[sampleRow "s1" "ns/p", sampleRow "s2" "ns/p"],
    [sampleRow "s2" "ns/p", sampleRow "s1" "ns/p"], List.Perm.swap _ _ _, by decide, by decide,
    ⟨by decide, by decide⟩, by decide⟩

end VkSandbox
