import VkSandbox.Machinery.Table
import Mathlib.Data.Finset.Sort
import Mathlib.Data.String.Basic

/-!
# Machinery/Json — structs, maps and slices through `encoding/json`

Marshalling writes a value as a JSON tree; unmarshalling stores a tree *into* a value that is
already there, one member at a time.  A member goes to the field its name folds to, so the order of
members, members of other names and the case of a name do not matter; a field that is left out keeps
what it had, and `null` resets a pointer, a map or a slice and leaves anything else alone.

A struct is a list of columns.  `intoStruct_encodeStruct` reduces its round trip to one column at a
time, and `Carries` is what a column needs: that its field comes back as `norm` says, also when it
was omitted.
-/

/-- A JSON tree; a number is its literal. -/
inductive Json where
  | null
  | bool (b : Bool)
  | num (literal : String)
  | str (s : String)
  | arr (items : List Json)
  | obj (members : List (String × Json))

namespace Json

variable {σ α β : Type}

/-- Store a tree into a value. -/
abbrev Into (α : Type) := α → Json → Option α

/-! ## Scalars, pointers, slices and maps -/

/-- Into a `string`. -/
def intoString : Into String
  | s, .null => some s
  | _, .str s => some s
  | _, _ => none

/-- Into a `bool`. -/
def intoBool : Into Bool
  | b, .null => some b
  | _, .bool b => some b
  | _, _ => none

/-- Into a pointer, which is allocated when it is nil. -/
def intoPointer (zero : α) (into : Into α) : Into (Option α)
  | _, .null => some none
  | o, v => (into (o.getD zero) v).map some

/-- Into a slice, over the elements it has. -/
def intoItems (zero : α) (into : Into α) : List α → List Json → Option (List α)
  | _, [] => some []
  | old, v :: vs => do
    let a ← into (old.headD zero) v
    let rest ← intoItems zero into old.tail vs
    return a :: rest

/-- Into a slice. -/
def intoSlice (zero : α) (into : Into α) : Into (List α)
  | _, .null => some []
  | old, .arr items => intoItems zero into old items
  | _, _ => none

/-- Into a map: each member a fresh row, beside the rows it has. -/
def intoMap (zero : α) (into : Into α) : Into (Table String α)
  | _, .null => some ∅
  | t, .obj members => members.foldlM (fun t m => (into zero m.2).map fun a => t.insert m.1 a) t
  | _, _ => none

/-- A map, its members in the order of their keys. -/
def encodeMap (enc : α → Json) (t : Table String α) : Json :=
  .obj ((t.keys.sort (· ≤ ·)).filterMap fun k => (t.lookup k).map fun a => (k, enc a))

/-- **A slice comes back** item by item. -/
theorem intoItems_map {zero : α} {enc : α → Json} {into : Into α} {norm : α → α} {l : List α}
    (h : ∀ a ∈ l, into zero (enc a) = some (norm a)) :
    intoItems zero into [] (l.map enc) = some (l.map norm) := by
  induction l with
  | nil => rfl
  | cons a l ih =>
    obtain ⟨ha, hl⟩ := List.forall_mem_cons.mp h
    simp [intoItems, ha, ih hl]

/-- The members of a map are stored one after the other. -/
theorem foldlM_rows {zero : α} {enc : α → Json} {into : Into α} {norm : α → α} {t : Table String α}
    (h : ∀ k a, t.lookup k = some a → into zero (enc a) = some (norm a)) (keys : List String)
    (out : Table String α) :
    (keys.filterMap fun k => (t.lookup k).map fun a => (k, enc a)).foldlM
        (fun (t : Table String α) m => (into zero m.2).map fun a => t.insert m.1 a) out
      = some (keys.foldl (fun out k => (t.lookup k).elim out fun a => out.insert k (norm a))
        out) := by
  induction keys generalizing out with
  | nil => rfl
  | cons k keys ih =>
    rw [List.filterMap_cons, List.foldl_cons]
    cases ha : t.lookup k with
    | none => exact ih out
    | some a =>
      simp only [Option.map_some, List.foldlM_cons, h k a ha]
      exact ih _

/-- **A map comes back** row by row. -/
theorem intoMap_encodeMap {zero : α} {enc : α → Json} {into : Into α} {norm : α → α}
    {t : Table String α} (h : ∀ k a, t.lookup k = some a → into zero (enc a) = some (norm a)) :
    intoMap zero into ∅ (encodeMap enc t) = some (t.pick fun _ a => some (norm a)) := by
  rw [encodeMap, intoMap, foldlM_rows h,
    Table.foldl_eq_pick (fun k a _ ha _ => ?_) (fun out k _ a ha => ?_) fun out k _ hk => ?_]
  · exact (Finset.mem_sort _).mpr (Finmap.mem_keys.mpr (Finmap.mem_of_lookup_eq_some ha))
  · rw [ha]
    rfl
  · rw [hk]
    rfl

/-! ## Structs -/

/-- `foldName` on one rune: the runes that fold to an ASCII letter. -/
def foldRune (c : Char) : Char :=
  if c.isLower then c.toUpper else if c = 'ſ' then 'S' else if c = 'K' then 'K' else c

/-- `foldName`. -/
def foldName (name : String) : List Char := name.toList.map foldRune

/-- A field of a struct: its name, what is written for it unless it is omitted, and how a member is
stored. -/
structure Column (σ : Type) where
  name : String
  enc : σ → Option Json
  store : Into σ

/-- The struct as an object. -/
def encodeStruct (cols : List (Column σ)) (x : σ) : Json :=
  .obj (cols.filterMap fun c => (c.enc x).map fun v => (c.name, v))

/-- A member of an object: it goes to the field its name folds to, if there is one. -/
def storeMember (cols : List (Column σ)) (s : σ) (m : String × Json) : Option σ :=
  match cols.find? fun c => foldName c.name = foldName m.1 with
  | some c => c.store s m.2
  | none => some s

/-- Into a struct. -/
def intoStruct (cols : List (Column σ)) : Into σ
  | s, .null => some s
  | s, .obj members => members.foldlM (storeMember cols) s
  | _, _ => none

/-- What one column of `x` does to the struct it is read into. -/
def Column.carry (c : Column σ) (x : σ) (s : σ) : Option σ :=
  match c.enc x with
  | some v => c.store s v
  | none => some s

/-- No two fields answer to one name. -/
def DistinctNames (cols : List (Column σ)) : Prop := (cols.map fun c => foldName c.name).Nodup

instance (cols : List (Column σ)) : Decidable (DistinctNames cols) :=
  inferInstanceAs (Decidable (List.Nodup _))

theorem find?_column {cols : List (Column σ)} (hd : DistinctNames cols) {c : Column σ}
    (hc : c ∈ cols) :
    (cols.find? fun c' => foldName c'.name = foldName c.name) = some c := by
  induction cols with
  | nil => cases hc
  | cons c' cols ih =>
    obtain ⟨hc', hd⟩ := List.nodup_cons.mp hd
    rw [List.find?_cons]
    rcases List.mem_cons.mp hc with rfl | hc
    · simp
    · have hne : foldName c'.name ≠ foldName c.name := fun he =>
        hc' (List.mem_map.mpr ⟨c, hc, he.symm⟩)
      simpa [hne] using ih hd hc

/-- **A struct is read back one column at a time.** -/
theorem intoStruct_encodeStruct {cols : List (Column σ)} (hd : DistinctNames cols) (x s : σ) :
    intoStruct cols s (encodeStruct cols x) = cols.foldlM (fun s c => c.carry x s) s := by
  suffices h : ∀ l : List (Column σ), (∀ c ∈ l, c ∈ cols) → ∀ s,
      (l.filterMap fun c => (c.enc x).map fun v => (c.name, v)).foldlM (storeMember cols) s
        = l.foldlM (fun s c => c.carry x s) s from h cols (fun _ => id) s
  intro l hl s
  induction l generalizing s with
  | nil => rfl
  | cons c l ih =>
    obtain ⟨hc, hl⟩ := List.forall_mem_cons.mp hl
    rw [List.filterMap_cons, List.foldlM_cons, Column.carry]
    cases hv : c.enc x with
    | none => exact ih hl s
    | some v =>
      simp only [Option.map_some, List.foldlM_cons, storeMember, find?_column hd hc]
      cases c.store s v with
      | none => rfl
      | some s' => exact ih hl s'

/-! ## Members of other names -/

/-- `p` changes nothing that `into` looks at. -/
def Respects (into : Into α) (p : Json → Json) : Prop := ∀ a v, into a (p v) = into a v

/-- An object without the members its struct has no field for; the others pruned in turn. -/
def pruneStruct (cols : List (Column σ × (Json → Json))) : Json → Json
  | .obj members => .obj (members.filterMap fun m =>
      (cols.find? fun c => foldName c.1.name = foldName m.1).map fun c => (m.1, c.2 m.2))
  | v => v

/-- Every item pruned. -/
def pruneSlice (p : Json → Json) : Json → Json
  | .arr items => .arr (items.map p)
  | v => v

/-- Every row pruned. -/
def pruneMap (p : Json → Json) : Json → Json
  | .obj members => .obj (members.map fun m => (m.1, p m.2))
  | v => v

/-- **A struct does not see what it has no field for.** -/
theorem respects_struct {cols : List (Column σ × (Json → Json))}
    (h : ∀ c ∈ cols, Respects c.1.store c.2) :
    Respects (intoStruct (cols.map Prod.fst)) (pruneStruct cols) := by
  intro s v
  cases v with
  | obj members =>
    simp only [pruneStruct, intoStruct]
    induction members generalizing s with
    | nil => rfl
    | cons m members ih =>
      have hfind : (cols.map Prod.fst).find? (fun c => foldName c.name = foldName m.1)
          = (cols.find? fun c => foldName c.1.name = foldName m.1).map Prod.fst := List.find?_map
      rw [List.filterMap_cons, List.foldlM_cons, storeMember, hfind]
      cases hc : cols.find? fun c => foldName c.1.name = foldName m.1 with
      | none => exact ih s
      | some c =>
        simp only [Option.map_some, List.foldlM_cons, storeMember, hfind, hc,
          h c (List.mem_of_find?_eq_some hc) s m.2]
        exact bind_congr fun s' => ih s'
  | _ => rfl

theorem respects_slice {zero : α} {into : Into α} {p : Json → Json} (h : Respects into p) :
    Respects (intoSlice zero into) (pruneSlice p) := by
  have hitems : ∀ items old, intoItems zero into old (items.map p) =
      intoItems zero into old items := by
    intro items
    induction items with
    | nil => exact fun _ => rfl
    | cons v items ih =>
      intro old
      simp only [List.map_cons, intoItems, h _ v, ih]
  intro old v
  cases v with
  | arr items => exact hitems items old
  | _ => rfl

theorem respects_map {zero : α} {into : Into α} {p : Json → Json} (h : Respects into p) :
    Respects (intoMap zero into) (pruneMap p) := by
  intro t v
  cases v with
  | obj members =>
    have hrow : ∀ v, into zero (p v) = into zero v := h zero
    simp only [pruneMap, intoMap, List.foldlM_map, hrow]
  | _ => rfl

theorem respects_pointer {zero : α} {into : Into α} {p : Json → Json} (h : Respects into p)
    (hnull : ∀ v, p v = .null ↔ v = .null) : Respects (intoPointer zero into) p := by
  intro o v
  by_cases hv : v = .null
  · rw [hv, (hnull .null).mpr rfl]
  · rw [intoPointer, intoPointer, h]
    · exact hv
    · exact fun he => hv ((hnull v).mp he)

/-! ## Columns -/

/-- A column that keeps one field, read by `get` and written by `set`. -/
def Column.of (name : String) (get : σ → α) (set : σ → α → σ) (enc : α → Option Json)
    (into : Into α) :
    Column σ where
  name := name
  enc := fun x => enc (get x)
  store := fun s v => (into (get s) v).map (set s)

/-- **A field comes back**: read into its zero value it is `a'`, and it is omitted only if that is
zero. -/
structure Carries (enc : α → Option Json) (into : Into α) (zero a a' : α) : Prop where
  written : ∀ v, enc a = some v → into zero v = some a'
  omitted : enc a = none → a' = zero

/-- **One column of a struct**, and then the others. -/
theorem foldlM_carry {name : String} {get : σ → α} {set : σ → α → σ} {enc : α → Option Json}
    {into : Into α} {cols : List (Column σ)} {x s : σ} {r : Option σ} {a' : α}
    (h : Carries enc into (get s) (get x) a') (hset : set s (get s) = s)
    (hr : cols.foldlM (fun s c => c.carry x s) (set s a') = r) :
    (Column.of name get set enc into :: cols).foldlM (fun s c => c.carry x s) s = r := by
  have hc : (Column.of name get set enc into).carry x s = some (set s a') := by
    simp only [Column.carry, Column.of]
    cases hv : enc (get x) with
    | some v =>
      dsimp only
      rw [h.written v hv, Option.map_some]
    | none => rw [h.omitted hv, hset]
  rw [List.foldlM_cons, hc]
  exact hr

theorem respects_of {name : String} {get : σ → α} {set : σ → α → σ} {enc : α → Option Json}
    {into : Into α} {p : Json → Json} (h : Respects into p) :
    Respects (Column.of name get set enc into).store p := by
  intro s v
  simp only [Column.of, h (get s) v]

theorem respects_id (into : Into α) : Respects into id := fun _ _ => rfl

/-! ## The fields of each kind -/

/-- A field that is always written. -/
theorem carries_always {enc : α → Json} {into : Into α} {zero a a' : α}
    (h : into zero (enc a) = some a') :
    Carries (fun a => some (enc a)) into zero a a' where
  written := by
    rintro v ⟨⟩
    exact h
  omitted := nofun

/-- A string that is always written. -/
theorem carries_string (zero s : String) : Carries (fun s => some (.str s)) intoString zero s s :=
  carries_always rfl

/-- `omitempty` on a string. -/
def nonempty (s : String) : Option Json := if s = "" then none else some (.str s)

theorem carries_nonempty (s : String) : Carries nonempty intoString "" s s where
  written := by
    intro v hv
    obtain ⟨-, hv⟩ := Option.ite_none_left_eq_some.mp hv
    cases hv
    rfl
  omitted := fun hv => by simpa [nonempty] using hv

/-- `omitempty` on a pointer: only nil is omitted, also where what it points to is empty. -/
theorem carries_pointer {zero : α} {enc : α → Json} {into : Into α} {norm : α → α} {o : Option α}
    (h : ∀ a ∈ o, into zero (enc a) = some (norm a)) (hnull : ∀ a ∈ o, enc a ≠ .null) :
    Carries (Option.map enc) (intoPointer zero into) none o (o.map norm) where
  written := by
    intro v hv
    obtain ⟨a, rfl, rfl⟩ := Option.map_eq_some_iff.mp hv
    rw [intoPointer, Option.getD_none, h a rfl]
    · rfl
    · exact hnull a rfl
  omitted := fun hv => by rw [Option.map_eq_none_iff.mp hv, Option.map_none]

/-- The same for what comes back as it was. -/
theorem carries_pointer_same {zero : α} {enc : α → Json} {into : Into α}
    (h : ∀ a, into zero (enc a) = some a) (hnull : ∀ a, enc a ≠ .null) (o : Option α) :
    Carries (Option.map enc) (intoPointer zero into) none o o := by
  have hsame : Carries (Option.map enc) (intoPointer zero into) none o (o.map id) :=
    carries_pointer (fun a _ => h a) fun a _ => hnull a
  rwa [Option.map_id_fun, id] at hsame

/-- `omitempty` on a slice. -/
def nonemptySlice (enc : α → Json) : List α → Option Json
  | [] => none
  | l => some (.arr (l.map enc))

theorem carries_slice {zero : α} {enc : α → Json} {into : Into α} {norm : α → α} {l : List α}
    (h : ∀ a ∈ l, into zero (enc a) = some (norm a)) :
    Carries (nonemptySlice enc) (intoSlice zero into) [] l (l.map norm) where
  written := by
    intro v hv
    cases l with
    | nil => cases hv
    | cons a l =>
      cases hv
      exact intoItems_map h
  omitted := by
    intro hv
    cases l with
    | nil => rfl
    | cons a l => cases hv

end Json
