import Mathlib.Algebra.BigOperators.Group.List.Basic
import Mathlib.Algebra.Order.Ring.Int
import Mathlib.Algebra.Order.BigOperators.Group.List
import Mathlib.Data.List.Nodup

/-!
# Fair splits

An amount of whole units split among a list: shares that differ by one at most,
the larger ones first.
-/

namespace HeadsUp.Lib

structure FairSplit {α : Type*} (amount : ℤ) (among : List α) (won : α → ℤ) : Prop where
  others : ∀ p, p ∉ among → won p = 0
  total : (among.map won).sum = amount
  nonneg : ∀ p, 0 ≤ won p
  even : ∀ p ∈ among, ∀ q ∈ among, won p ≤ won q + 1
  early : among.Pairwise fun p q => won q ≤ won p

namespace FairSplit
variable {α : Type*} {amount : ℤ} {among : List α} {won : α → ℤ}

/-- Nothing to split. -/
theorem zero (among : List α) : FairSplit 0 among 0 where
  others := fun _ _ => rfl
  total := List.sum_eq_zero fun x hx => by
    obtain ⟨p, -, rfl⟩ := List.mem_map.mp hx
    rfl
  nonneg := fun _ => le_refl 0
  even := fun _ _ _ _ => by simp only [Pi.zero_apply]; omega
  early := List.pairwise_of_forall fun _ _ => le_refl 0

/-- Nobody gets more than is split. -/
theorem le_amount (h : FairSplit amount among won) (p : α) : won p ≤ amount := by
  have hnonneg : ∀ x ∈ among.map won, 0 ≤ x := by
    intro x hx
    obtain ⟨q, -, rfl⟩ := List.mem_map.mp hx
    exact h.nonneg q
  rw [← h.total]
  by_cases hp : p ∈ among
  · exact List.single_le_sum hnonneg _ (List.mem_map_of_mem hp)
  · rw [h.others p hp]
    exact List.sum_nonneg hnonneg

theorem of_zero (h : FairSplit 0 among won) : won = 0 :=
  funext fun p => le_antisymm (h.le_amount p) (h.nonneg p)

/-- The first `r` of the list get one unit more than the others. -/
theorem of_shares (share : ℤ) (r : ℕ) (hothers : ∀ p, p ∉ among → won p = 0)
    (htotal : (among.map won).sum = amount) (hnonneg : ∀ p, 0 ≤ won p)
    (hshare : ∀ i (hi : i < among.length), won among[i] = share + if i < r then 1 else 0) :
    FairSplit amount among won where
  others := hothers
  total := htotal
  nonneg := hnonneg
  even := by
    intro p hp q hq
    obtain ⟨i, hi, rfl⟩ := List.getElem_of_mem hp
    obtain ⟨j, hj, rfl⟩ := List.getElem_of_mem hq
    rw [hshare i hi, hshare j hj]
    split_ifs <;> omega
  early := by
    rw [List.pairwise_iff_getElem]
    intro i j hi hj hlt
    rw [hshare i hi, hshare j hj]
    split_ifs <;> omega

/-- With a unit for each, everybody gets one. -/
theorem pos (h : FairSplit amount among won) (hmany : (among.length : ℤ) ≤ amount) {p : α}
    (hp : p ∈ among) : 0 < won p := by
  refine lt_of_le_of_ne (h.nonneg p) fun hzero => ?_
  have hone : ∀ q ∈ among, won q ≤ 1 := by
    intro q hq
    have heven := h.even q hq p hp
    omega
  have hlt := List.sum_lt_sum won (fun _ => 1) hone ⟨p, hp, by omega⟩
  rw [h.total, List.map_const', List.sum_replicate, nsmul_one] at hlt
  omega

end FairSplit
end HeadsUp.Lib
