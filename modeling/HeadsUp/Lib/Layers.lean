import Mathlib.Algebra.Order.Group.Defs
import Mathlib.Algebra.BigOperators.Group.List.Basic
import Mathlib.Data.Finset.Sort

/-!
# Layers of a list of amounts

The distinct amounts above a low mark, in ascending order, cut the amounts into
layers: each amount is the low mark and the layers up to it.
-/

namespace HeadsUp.Lib

/-! ### Levels -/

section Levels
variable {α : Type*} [LinearOrder α]

/-- The distinct amounts above `low`, ascending. -/
def levelsAbove (low : α) (amounts : List α) : List α :=
  (amounts.toFinset.filter (low < ·)).sort (· ≤ ·)

theorem mem_levelsAbove {low x : α} {amounts : List α} :
    x ∈ levelsAbove low amounts ↔ x ∈ amounts ∧ low < x := by
  rw [levelsAbove, Finset.mem_sort, Finset.mem_filter, List.mem_toFinset]

theorem levelsAbove_sorted (low : α) (amounts : List α) :
    (levelsAbove low amounts).Pairwise (· < ·) :=
  Finset.sortedLT_sort _ |>.pairwise

theorem levelsAbove_congr (low : α) {amounts amounts' : List α} (h : amounts.Perm amounts') :
    levelsAbove low amounts = levelsAbove low amounts' := by
  rw [levelsAbove, levelsAbove, List.toFinset_eq_of_perm _ _ h]

@[simp] theorem levelsAbove_nil (low : α) : levelsAbove low [] = [] := by
  simp [levelsAbove]

theorem levelsAbove_skip {low x : α} (h : x ≤ low) (amounts : List α) :
    levelsAbove low (x :: amounts) = levelsAbove low amounts := by
  have hsame : (x :: amounts).toFinset.filter (low < ·) = amounts.toFinset.filter (low < ·) := by
    rw [List.toFinset_cons, Finset.filter_insert, if_neg (not_lt.mpr h)]
  rw [levelsAbove, levelsAbove, hsame]

/-- The least amount is the first level, and the others are the levels above it. -/
theorem levelsAbove_cons {low x : α} (h : low < x) {amounts : List α}
    (hmin : ∀ y ∈ amounts, x ≤ y) :
    levelsAbove low (x :: amounts) = x :: levelsAbove x amounts := by
  have hnot : x ∉ amounts.toFinset.filter (x < ·) := by
    intro hx
    exact lt_irrefl x (Finset.mem_filter.mp hx).2
  have hsplit : (x :: amounts).toFinset.filter (low < ·)
      = Finset.cons x (amounts.toFinset.filter (x < ·)) hnot := by
    ext y
    rw [Finset.mem_filter, Finset.mem_cons, Finset.mem_filter, List.mem_toFinset,
      List.mem_toFinset, List.mem_cons]
    constructor
    · intro hy
      rcases eq_or_ne y x with rfl | hne
      · exact .inl rfl
      · have hmem := hy.1.resolve_left hne
        exact .inr ⟨hmem, lt_of_le_of_ne (hmin y hmem) hne.symm⟩
    · intro hy
      rcases hy with rfl | ⟨hmem, hlt⟩
      · exact ⟨.inl rfl, h⟩
      · exact ⟨.inr hmem, h.trans hlt⟩
  rw [levelsAbove, hsplit, Finset.sort_cons]
  · rfl
  · intro y hy
    exact (Finset.mem_filter.mp hy).2.le

end Levels

/-! ### Layers -/

section Layers
variable {α : Type*} [AddCommGroup α]

/-- Each level with its height over the one before it. -/
def layers (low : α) : List α → List (α × α)
  | [] => []
  | level :: rest => (level, level - low) :: layers level rest

theorem layers_map_fst (low : α) (levels : List α) : (layers low levels).map Prod.fst = levels := by
  induction levels generalizing low with
  | nil => rfl
  | cons level rest ih => rw [layers, List.map_cons, ih]

theorem level_of_mem_layers {low : α} {levels : List α} {layer : α × α}
    (h : layer ∈ layers low levels) : layer.1 ∈ levels := by
  rw [← layers_map_fst low levels]
  exact List.mem_map_of_mem h

variable [LinearOrder α]

theorem layers_pos [IsOrderedAddMonoid α] {low : α} {levels : List α}
    (hs : (low :: levels).Pairwise (· < ·)) : ∀ layer ∈ layers low levels, 0 < layer.2 := by
  induction levels generalizing low with
  | nil =>
    intro layer hno
    cases hno
  | cons level rest ih =>
    obtain ⟨hlow, hrest⟩ := List.pairwise_cons.mp hs
    intro layer hmem
    rcases List.mem_cons.mp hmem with rfl | hmem
    · exact sub_pos.mpr (hlow level (by simp))
    · exact ih hrest layer hmem

/-- The layers up to a level add up to its height over the low mark. -/
theorem sum_layers_upTo {low : α} {levels : List α} (hs : (low :: levels).Pairwise (· < ·))
    {x : α} (hx : x ∈ low :: levels) :
    (((layers low levels).filter fun layer => decide (layer.1 ≤ x)).map Prod.snd).sum
      = x - low := by
  induction levels generalizing low with
  | nil =>
    obtain rfl := List.mem_singleton.mp hx
    rw [sub_self]
    rfl
  | cons level rest ih =>
    obtain ⟨hlow, hrest⟩ := List.pairwise_cons.mp hs
    rcases List.mem_cons.mp hx with rfl | hx
    · -- every level is above the low mark
      have hnone : (layers x (level :: rest)).filter (fun layer => decide (layer.1 ≤ x)) = [] := by
        rw [List.filter_eq_nil_iff]
        intro layer hmem
        simpa using hlow layer.1 (level_of_mem_layers hmem)
      rw [hnone, sub_self]
      rfl
    · have hle : level ≤ x := by
        rcases List.mem_cons.mp hx with rfl | hmem
        · exact le_refl x
        · exact ((List.pairwise_cons.mp hrest).1 x hmem).le
      rw [layers, List.filter_cons_of_pos (by simpa using hle), List.map_cons, List.sum_cons,
        ih hrest hx]
      exact sub_add_sub_cancel' level low x

end Layers
end HeadsUp.Lib
