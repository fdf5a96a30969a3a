import Mathlib.Data.List.Sort
import Mathlib.Logic.Equiv.Basic

/-!
# Machinery/Sorting — what a comparison sort fixes, and what it leaves open

A comparison sort learns of its elements only how their keys compare.  It may therefore put elements
of one key in any order, and which order it picks depends on where they stood before.

    [a, b]  ──sort──▸  [a, b]          key a = key b
    [b, a]  ──sort──▸  [b, a]

`map_sort_canonical_iff` says when that shows: seen through a function `f`, sorting gives one list
for all permutations of its input exactly when `f` does not tell elements of one key apart.
-/

/-- **A comparison sort** by keys of a linear order: it permutes, it sorts, and renaming the
elements without changing their keys renames the result. -/
structure ComparisonSort (κ : Type) [LinearOrder κ] where
  sort : {α : Type} → (α → κ) → List α → List α
  perm : ∀ {α : Type} (key : α → κ) (l : List α), (sort key l).Perm l
  sorted : ∀ {α : Type} (key : α → κ) (l : List α), (sort key l).Pairwise fun a b => key a ≤ key b
  natural : ∀ {α β : Type} (f : α → β) (key : β → κ) (l : List α),
    sort key (l.map f) = (sort (key ∘ f) l).map f

namespace ComparisonSort

variable {κ α β : Type} [LinearOrder κ]

/-- Insertion sort. -/
def insertion : ComparisonSort κ where
  sort key l := l.insertionSort fun a b => key a ≤ key b
  perm key l := List.perm_insertionSort _ l
  sorted key l := by
    have : Std.Total fun a b => key a ≤ key b := ⟨fun a b => le_total (key a) (key b)⟩
    have : IsTrans _ fun a b => key a ≤ key b := ⟨fun a b c => le_trans⟩
    exact List.pairwise_insertionSort _ l
  natural f key l := (List.map_insertionSort _ _ f l fun _ _ _ _ => Iff.rfl).symm

variable (s : ComparisonSort κ) {key : α → κ} {f : α → β} {l l' : List α} {a b : α}

/-- Elements of one key that look the same leave the sort no choice. -/
theorem map_sort_eq (hp : l'.Perm l) (hf : ∀ a ∈ l, ∀ b ∈ l, key a = key b → f a = f b) :
    (s.sort key l').map f = (s.sort key l).map f := by
  -- with the key beside the image, two sorted lists of the same elements are equal
  suffices h : (s.sort key l').map (fun a => (key a, f a))
      = (s.sort key l).map fun a => (key a, f a) by
    have hsnd := congrArg (List.map Prod.snd) h
    rwa [List.map_map, List.map_map] at hsnd
  have hmem : ∀ {l₀ : List α} {p : κ × β}, l₀.Perm l →
      p ∈ (s.sort key l₀).map (fun a => (key a, f a)) → ∃ a ∈ l, (key a, f a) = p := by
    intro l₀ p hp₀ h
    obtain ⟨a, ha, rfl⟩ := List.mem_map.mp h
    exact ⟨a, ((s.perm key l₀).trans hp₀).mem_iff.mp ha, rfl⟩
  have hsorted : ∀ l₀ : List α,
      ((s.sort key l₀).map fun a => (key a, f a)).Pairwise fun p q => p.1 ≤ q.1 := fun l₀ =>
    List.pairwise_map.mpr (s.sorted key l₀)
  refine List.Perm.eq_of_pairwise (fun p q hp₁ hq₁ hpq hqp => ?_) (hsorted l') (hsorted l)
    ((((s.perm key l').trans hp).trans (s.perm key l).symm).map _)
  obtain ⟨a, ha, rfl⟩ := hmem hp hp₁
  obtain ⟨b, hb, rfl⟩ := hmem (List.Perm.refl l) hq₁
  have hk : key a = key b := le_antisymm hpq hqp
  exact Prod.ext hk (hf a ha b hb hk)

/-- Swapping two elements of a list permutes it. -/
theorem map_swap_perm [DecidableEq α] (hn : l.Nodup) (ha : a ∈ l) (hb : b ∈ l) :
    (l.map (Equiv.swap a b)).Perm l := by
  have hswap : ∀ c ∈ l, Equiv.swap a b c ∈ l := by
    intro c hc
    rw [Equiv.swap_apply_def]
    split_ifs
    · exact hb
    · exact ha
    · exact hc
  refine (List.perm_ext_iff_of_nodup (hn.map (Equiv.swap a b).injective) hn).mpr fun c => ?_
  rw [List.mem_map]
  constructor
  · rintro ⟨d, hd, rfl⟩
    exact hswap d hd
  · exact fun hc => ⟨Equiv.swap a b c, hswap c hc, Equiv.swap_apply_self a b c⟩

/-- A sort that gives one list for all permutations shows elements of one key as the same: exchange
the two in the input, and they are exchanged in the output. -/
theorem image_eq_of_canonical (hn : l.Nodup)
    (h : ∀ l', l'.Perm l → (s.sort key l').map f = (s.sort key l).map f) (ha : a ∈ l) (hb : b ∈ l)
    (hk : key a = key b) : f a = f b := by
  classical
  have hkey : key ∘ Equiv.swap a b = key := by
    funext c
    rw [Function.comp_apply, Equiv.swap_apply_def]
    split_ifs with hca hcb
    · rw [hca, hk]
    · rw [hcb, hk]
    · rfl
  have hswap := h _ (map_swap_perm hn ha hb)
  rw [s.natural, hkey, List.map_map, List.map_inj_left] at hswap
  have hfb := hswap a ((s.perm key l).mem_iff.mpr ha)
  rw [Function.comp_apply, Equiv.swap_apply_left] at hfb
  exact hfb.symm

/-- **When sorting is canonical**: seen through `f`, all permutations of a list of distinct elements
sort to one list if and only if `f` does not tell elements of one key apart. -/
theorem map_sort_canonical_iff (hn : l.Nodup) :
    (∀ l', l'.Perm l → (s.sort key l').map f = (s.sort key l).map f) ↔
      ∀ a ∈ l, ∀ b ∈ l, key a = key b → f a = f b :=
  ⟨fun h _ ha _ hb hk => s.image_eq_of_canonical hn h ha hb hk, fun hf _ hp => s.map_sort_eq hp hf⟩

end ComparisonSort

/-- Two images of one list that differ in one place at most, and have the same elements, do not
differ there either. -/
theorem List.Nodup.eq_of_map_perm_map {α β : Type} {l : List α} {f g : α → β} {a : α} (hn : l.Nodup)
    (ha : a ∈ l) (hfg : ∀ b ∈ l, b ≠ a → f b = g b) (hp : (l.map f).Perm (l.map g)) :
    f a = g a := by
  obtain ⟨l₁, l₂, rfl⟩ := List.append_of_mem ha
  have hmid : (l₁ ++ a :: l₂).Perm (a :: (l₁ ++ l₂)) := List.perm_middle
  have hrest : (l₁ ++ l₂).map f = (l₁ ++ l₂).map g := List.map_inj_left.mpr fun b hb => by
    refine hfg b (hmid.mem_iff.mpr (List.mem_cons_of_mem a hb)) ?_
    rintro rfl
    exact (List.nodup_cons.mp (hmid.nodup_iff.mp hn)).1 hb
  have hcons := ((hmid.map f).symm.trans hp).trans (hmid.map g)
  rw [List.map_cons, List.map_cons, ← hrest] at hcons
  have hone := (List.perm_append_right_iff ((l₁ ++ l₂).map f)).mp
    (show ([f a] ++ _).Perm ([g a] ++ _) from hcons)
  exact List.singleton_inj.mp (List.perm_singleton.mp hone)
