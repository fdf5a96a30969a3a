import Mathlib.Data.Finmap

/-!
# Machinery/Table — finite maps filled by a range loop

A loop that ranges over a map and keeps, drops or rewrites each row on its own builds another map,
whatever order the rows come in.  `Table.pick` is that loop, and `lookup_pick` the one fact a caller
needs: row `k` of the result is what the body made of row `k`.
-/

/-- A finite map from `κ` to `β`. -/
abbrev Table (κ β : Type) := Finmap fun _ : κ => β

namespace Table

variable {κ β γ : Type}

/-- The rows the body `f` keeps, as it leaves them. -/
private def pickRow (f : κ → β → Option γ) (e : Σ _ : κ, β) : Option (Σ _ : κ, γ) :=
  (f e.1 e.2).map fun c => ⟨e.1, c⟩

private theorem keys_filterMap_pickRow (f : κ → β → Option γ) (l : List (Σ _ : κ, β)) :
    (l.filterMap (pickRow f)).keys.Sublist l.keys := by
  induction l with
  | nil => simp
  | cons e l ih =>
    cases h : f e.1 e.2 with
    | none => simpa [List.filterMap_cons, pickRow, h] using ih.cons e.1
    | some c => simpa [List.filterMap_cons, pickRow, h] using ih

/-- **The map a range loop builds**: the body sees one row at a time. -/
def pick (f : κ → β → Option γ) (m : Table κ β) : Table κ γ where
  entries := m.entries.filterMap (pickRow f)
  nodupKeys := by
    obtain ⟨es, hn⟩ := m
    induction es using Quotient.inductionOn with
    | h l =>
      simp only [Multiset.quot_mk_to_coe, Multiset.filterMap_coe, Multiset.coe_nodupKeys] at hn ⊢
      exact List.Nodup.sublist (keys_filterMap_pickRow f l) hn

variable [DecidableEq κ]

/-- **Row `k` of a range loop's result is what its body made of row `k`.** -/
@[simp] theorem lookup_pick (f : κ → β → Option γ) (m : Table κ β) (k : κ) :
    (pick f m).lookup k = (m.lookup k).bind (f k) := by
  refine Option.ext fun c => ?_
  rw [Finmap.lookup_eq_some_iff, Option.bind_eq_some_iff]
  simp only [pick, Multiset.mem_filterMap, pickRow, Option.map_eq_some_iff]
  constructor
  · rintro ⟨⟨k', b⟩, hmem, c', hf, he⟩
    cases he
    exact ⟨b, Finmap.lookup_eq_some_iff.mpr hmem, hf⟩
  · rintro ⟨b, hb, hf⟩
    exact ⟨⟨k, b⟩, Finmap.lookup_eq_some_iff.mp hb, c, hf, rfl⟩

/-- Writing one row changes that row alone. -/
@[grind =] theorem lookup_insert (m : Table κ β) (k k' : κ) (b : β) :
    (m.insert k b).lookup k' = if k' = k then some b else m.lookup k' := by
  split
  · next h => rw [h, Finmap.lookup_insert]
  · next h => rw [Finmap.lookup_insert_of_ne m h]

/-- Deleting one row changes that row alone. -/
@[grind =] theorem lookup_erase (m : Table κ β) (k k' : κ) :
    (m.erase k).lookup k' = if k' = k then none else m.lookup k' := by
  split
  · next h => rw [h, Finmap.lookup_erase]
  · next h => rw [Finmap.lookup_erase_ne h]

/-! ## Every row rewritten -/

/-- The table with every row rewritten by `g`. -/
def mapRows (g : β → γ) (m : Table κ β) : Table κ γ := m.pick fun _ b => some (g b)

@[simp] theorem lookup_mapRows (g : β → γ) (m : Table κ β) (k : κ) :
    (m.mapRows g).lookup k = (m.lookup k).map g := by
  rw [mapRows, lookup_pick]
  cases m.lookup k <;> rfl

theorem mapRows_id (m : Table κ β) : m.mapRows id = m := by
  refine Finmap.ext_lookup fun k => ?_
  rw [lookup_mapRows, Option.map_id, id]

theorem mapRows_insert (g : β → γ) (m : Table κ β) (k : κ) (b : β) :
    mapRows g (m.insert k b) = (m.mapRows g).insert k (g b) := by
  refine Finmap.ext_lookup fun k' => ?_
  rw [lookup_mapRows, lookup_insert, lookup_insert, lookup_mapRows]
  split <;> rfl

theorem mapRows_erase (g : β → γ) (m : Table κ β) (k : κ) :
    mapRows g (m.erase k) = (m.mapRows g).erase k := by
  refine Finmap.ext_lookup fun k' => ?_
  rw [lookup_mapRows, lookup_erase, lookup_erase, lookup_mapRows]
  split <;> rfl

theorem keys_mapRows (g : β → γ) (m : Table κ β) : (m.mapRows g).keys = m.keys := by
  ext k
  rw [Finmap.mem_keys, Finmap.mem_keys, ← Finmap.lookup_isSome, ← Finmap.lookup_isSome,
    lookup_mapRows,
    Option.isSome_map]

/-- A range loop over the rewritten table, against one over the table itself. -/
theorem pick_mapRows {δ ε : Type} {g : β → γ} {h : δ → ε} {f : κ → γ → Option ε}
    {f' : κ → β → Option δ} (m : Table κ β) (hf : ∀ k b, f k (g b) = (f' k b).map h) :
    (m.mapRows g).pick f = (m.pick f').mapRows h := by
  refine Finmap.ext_lookup fun k => ?_
  rw [lookup_pick, lookup_mapRows, lookup_mapRows, lookup_pick]
  cases m.lookup k with
  | none => rfl
  | some b => exact hf k b

/-! ## Tables built by a loop -/

section Build

variable {δ : Type} (g : δ → Option γ) (key : δ → γ → κ) (val : δ → γ → β)

/-- **The map a loop over a list builds**: some steps write a row, a later one over an earlier
one. -/
def build (l : List δ) (t : Table κ β) : Table κ β :=
  l.foldl (fun t d => match g d with
    | some y => t.insert (key d y) (val d y)
    | none => t) t

variable {g key val}

/-- A loop builds a table if every round writes a row or none. -/
theorem foldl_eq_build {step : Table κ β → δ → Table κ β} {l : List δ} {t : Table κ β}
    (hsome : ∀ t d y, g d = some y → step t d = t.insert (key d y) (val d y))
    (hnone : ∀ t d, g d = none → step t d = t) : l.foldl step t = build g key val l t := by
  unfold build
  congr 1
  funext t d
  cases h : g d with
  | none => exact hnone t d h
  | some y => exact hsome t d y h

/-- Every row of it was there before or was written by a step. -/
theorem lookup_build {l : List δ} {t : Table κ β} {i : κ} {v : β}
    (h : (build g key val l t).lookup i = some v) :
    t.lookup i = some v ∨ ∃ d ∈ l, ∃ y, g d = some y ∧ key d y = i ∧ val d y = v := by
  induction l generalizing t with
  | nil => exact .inl h
  | cons d l ih =>
    simp only [build, List.foldl_cons] at h
    obtain h | ⟨d', hd, hrest⟩ := ih h
    · split at h
      · next y hy =>
        rw [lookup_insert] at h
        split at h
        · next hk => exact .inr ⟨d, by simp, y, hy, hk.symm, Option.some.inj h⟩
        · exact .inl h
      · exact .inl h
    · exact .inr ⟨d', List.mem_cons_of_mem _ hd, hrest⟩

theorem isSome_build_of_isSome {l : List δ} {t : Table κ β} {i : κ} (h : (t.lookup i).isSome) :
    ((build g key val l t).lookup i).isSome := by
  induction l generalizing t with
  | nil => exact h
  | cons d l ih =>
    simp only [build, List.foldl_cons]
    refine ih ?_
    split
    · rw [lookup_insert]
      split
      · rfl
      · exact h
    · exact h

/-- A row that was written is there. -/
theorem isSome_build {l : List δ} {t : Table κ β} {d : δ} {y : γ} (hd : d ∈ l) (hy : g d = some y) :
    ((build g key val l t).lookup (key d y)).isSome := by
  induction l generalizing t with
  | nil => cases hd
  | cons d' l ih =>
    rcases List.mem_cons.mp hd with rfl | hd
    · simp only [build, List.foldl_cons, hy]
      exact isSome_build_of_isSome (by rw [lookup_insert, if_pos rfl]; rfl)
    · exact ih hd

/-- Rows written once each are the rows of the table. -/
theorem lookup_foldl_insert {rows : List (κ × β)} (hnd : (rows.map Prod.fst).Nodup) {k : κ}
    {v : β} :
    (rows.foldl (fun (t : Table κ β) p => t.insert p.1 p.2) ∅).lookup k = some v ↔
      (k, v) ∈ rows := by
  have hbuild : rows.foldl (fun (t : Table κ β) p => t.insert p.1 p.2) ∅
      = build some (fun p _ => p.1) (fun p _ => p.2) rows ∅ := rfl
  have hback : ∀ {v}, (rows.foldl (fun (t : Table κ β) p => t.insert p.1 p.2) ∅).lookup k = some v →
      (k, v) ∈ rows := by
    intro v h
    rw [hbuild] at h
    obtain h | ⟨p, hp, _, -, rfl, rfl⟩ := lookup_build h
    · cases h
    · exact hp
  refine ⟨hback, fun h => ?_⟩
  have hsome : ((rows.foldl (fun (t : Table κ β) p => t.insert p.1 p.2) ∅).lookup k).isSome := by
    rw [hbuild]
    exact isSome_build (d := (k, v)) h rfl
  obtain ⟨v', hv'⟩ := Option.isSome_iff_exists.mp hsome
  rw [hv', (Prod.mk.inj (List.inj_on_of_nodup_map hnd (hback hv') h rfl)).2]

end Build

/-! ## Range loops, iteration by iteration -/

section Range

/-- An order in which a loop may range over the rows of these keys. -/
def Ranges (keys : Finset κ) (order : List κ) : Prop := order.Nodup ∧ order.toFinset = keys

theorem Ranges.mem_iff {keys : Finset κ} {order : List κ} (h : Ranges keys order) {k : κ} :
    k ∈ order ↔ k ∈ keys := by
  rw [← h.2, List.mem_toFinset]

theorem Ranges.perm {keys : Finset κ} {order order' : List κ} (h : Ranges keys order)
    (hp : order'.Perm order) : Ranges keys order' :=
  ⟨hp.nodup_iff.mpr h.1, (List.toFinset_eq_of_perm _ _ hp).trans h.2⟩

/-- **A loop body that works on one row**: what it sees of a row it changes by `g`, and it changes
no other. -/
structure Rowwise {σ V : Type} (view : κ → σ → V) (body : σ → κ → σ) (g : κ → V → V) : Prop where
  own : ∀ s k, view k (body s k) = g k (view k s)
  other : ∀ s k k', k' ≠ k → view k' (body s k) = view k' s

/-- **Whatever the order, such a loop does to each row what its body does to it once.** -/
theorem Rowwise.foldl {σ V : Type} {view : κ → σ → V} {body : σ → κ → σ} {g : κ → V → V}
    (h : Rowwise view body g) {order : List κ} (hnd : order.Nodup) (s : σ) (k : κ) :
    view k (order.foldl body s) = if k ∈ order then g k (view k s) else view k s := by
  induction order generalizing s with
  | nil => rfl
  | cons k' rest ih =>
    obtain ⟨hk', hrest⟩ := List.nodup_cons.mp hnd
    rw [List.foldl_cons, ih hrest]
    by_cases hk : k = k'
    · subst hk
      rw [if_neg hk', if_pos List.mem_cons_self, h.own]
    · rw [h.other s k' k hk]
      simp only [List.mem_cons, hk, false_or]

/-- **A loop that collects rows into an empty table** builds what `pick` does, if it comes by every
row there is to keep. -/
theorem foldl_eq_pick {f : κ → β → Option γ} {m : Table κ β} {body : Table κ γ → κ → Table κ γ}
    {order : List κ} (hall : ∀ k b c, m.lookup k = some b → f k b = some c → k ∈ order)
    (hrow : ∀ out, ∀ k ∈ order, ∀ b, m.lookup k = some b →
      body out k = (f k b).elim out (out.insert k))
    (hnone : ∀ out, ∀ k ∈ order, m.lookup k = none → body out k = out) :
    order.foldl body ∅ = m.pick f := by
  have hbuild : order.foldl body ∅
      = build (fun k => (m.lookup k).bind (f k)) (fun k _ => k) (fun _ c => c) order ∅ := by
    refine List.foldl_ext _ _ _ fun out k hk => ?_
    dsimp only
    cases hb : m.lookup k with
    | none => rw [hnone out k hk hb, Option.bind_none]
    | some b =>
      rw [hrow out k hk b hb, Option.bind_some]
      cases f k b <;> rfl
  have hkept : ∀ k c, (order.foldl body ∅).lookup k = some c →
      (m.lookup k).bind (f k) = some c := by
    intro k c h
    rw [hbuild] at h
    obtain h | ⟨k', -, c', hc', rfl, rfl⟩ := lookup_build h
    · cases h
    · exact hc'
  refine Finmap.ext_lookup fun k => Option.ext fun c => ⟨fun h => ?_, fun h => ?_⟩
  · rw [lookup_pick]
    exact hkept k c h
  · rw [lookup_pick] at h
    obtain ⟨b, hb, hf⟩ := Option.bind_eq_some_iff.mp h
    have hsome : ((order.foldl body ∅).lookup k).isSome := by
      rw [hbuild]
      exact isSome_build (hall k b c hb hf) h
    obtain ⟨c', hc'⟩ := Option.isSome_iff_exists.mp hsome
    rw [hc', ← h, hkept k c' hc']

end Range

end Table
