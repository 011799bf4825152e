import Mathlib.Data.List.AList
import Mathlib.Algebra.Ring.Int.Defs

/-!
# Two maps kept inverse

A pairing of keys is often kept as two finite maps, one for each direction, and
edited by hand in both. The edits that keep the maps inverse to each other are
to add a pair of two free keys and to drop a pair.
-/

namespace HeadsUp.Lib
variable {α β : Type*} [DecidableEq α] [DecidableEq β]

/-- The maps hold the same pairs. -/
def Inverse (f : AList fun _ : α => β) (g : AList fun _ : β => α) : Prop :=
  ∀ a b, f.lookup a = some b ↔ g.lookup b = some a

namespace Inverse
variable {f : AList fun _ : α => β} {g : AList fun _ : β => α}

theorem empty : Inverse (∅ : AList fun _ : α => β) (∅ : AList fun _ : β => α) := by
  intro a b
  simp

theorem symm (h : Inverse f g) : Inverse g f := fun b a => (h a b).symm

theorem left_unique (h : Inverse f g) {a a' : α} {b : β} (ha : f.lookup a = some b)
    (ha' : f.lookup a' = some b) : a = a' :=
  Option.some.inj (((h a b).mp ha).symm.trans ((h a' b).mp ha'))

/-- No value is kept twice. -/
theorem values_nodup (h : Inverse f g) : (f.entries.map fun e => e.2).Nodup := by
  refine List.Nodup.map_on ?_ (List.Nodup.of_map Sigma.fst f.keys_nodup)
  intro x hx y hy hxy
  have hx' := AList.mem_lookup_iff.mpr hx
  have hy' := AList.mem_lookup_iff.mpr hy
  rw [hxy] at hx'
  exact Sigma.ext (h.left_unique hx' hy') (heq_of_eq hxy)

theorem lookup_eq_none_iff (h : Inverse f g) {b : β} :
    g.lookup b = none ↔ ∀ a, f.lookup a ≠ some b := by
  constructor
  · intro hnone a ha
    rw [(h a b).mp ha] at hnone
    cases hnone
  · intro hno
    cases hb : g.lookup b with
    | none => rfl
    | some a => exact absurd ((h a b).mpr hb) (hno a)

theorem insert (h : Inverse f g) {a : α} {b : β} (ha : f.lookup a = none)
    (hb : g.lookup b = none) : Inverse (f.insert a b) (g.insert b a) := by
  intro a' b'
  by_cases haa : a' = a
  · subst haa
    rw [AList.lookup_insert]
    by_cases hbb : b' = b
    · subst hbb
      rw [AList.lookup_insert]
      exact iff_of_true rfl rfl
    · rw [AList.lookup_insert_ne hbb, ← h a' b', ha]
      exact iff_of_false (fun hh => hbb (Option.some.inj hh).symm) (by simp)
  · rw [AList.lookup_insert_ne haa]
    by_cases hbb : b' = b
    · subst hbb
      rw [AList.lookup_insert, h a' b', hb]
      exact iff_of_false (by simp) fun hh => haa (Option.some.inj hh).symm
    · rw [AList.lookup_insert_ne hbb]
      exact h a' b'

theorem erase (h : Inverse f g) {a : α} {b : β} (hab : f.lookup a = some b) :
    Inverse (f.erase a) (g.erase b) := by
  intro a' b'
  by_cases haa : a' = a
  · subst haa
    rw [AList.lookup_erase]
    by_cases hbb : b' = b
    · subst hbb
      rw [AList.lookup_erase]
      simp
    · rw [AList.lookup_erase_ne hbb, ← h a' b', hab]
      exact iff_of_false (by simp) fun hh => hbb (Option.some.inj hh).symm
  · rw [AList.lookup_erase_ne haa]
    by_cases hbb : b' = b
    · subst hbb
      rw [AList.lookup_erase, h a' b', (h a b').mp hab]
      exact iff_of_false (fun hh => haa (Option.some.inj hh).symm) (by simp)
    · rw [AList.lookup_erase_ne hbb]
      exact h a' b'

end Inverse

/-- Maps that have the same keys for a value hold it the same number of times. -/
theorem count_values_congr {f g : AList fun _ : α => β} {b : β}
    (h : ∀ a, f.lookup a = some b ↔ g.lookup a = some b) :
    (f.entries.map fun e => e.2).count b = (g.entries.map fun e => e.2).count b := by
  have hlength : ∀ f : AList fun _ : α => β, (f.entries.map fun e => e.2).count b
      = (f.entries.filter fun e => e.2 == b).length := by
    intro f
    rw [List.count_eq_countP, List.countP_map, List.countP_eq_length_filter]
    rfl
  rw [hlength, hlength]
  have hnodup : ∀ f : AList fun _ : α => β, (f.entries.filter fun e => e.2 == b).Nodup :=
    fun f => (List.Nodup.of_map Sigma.fst f.keys_nodup).filter _
  apply List.Perm.length_eq
  rw [List.perm_ext_iff_of_nodup (hnodup f) (hnodup g)]
  intro e
  simp only [List.mem_filter, beq_iff_eq]
  constructor
  · intro hh
    obtain ⟨hmem, rfl⟩ := hh
    exact ⟨AList.mem_lookup_iff.mp ((h e.1).mp (AList.mem_lookup_iff.mpr hmem)), rfl⟩
  · intro hh
    obtain ⟨hmem, rfl⟩ := hh
    exact ⟨AList.mem_lookup_iff.mp ((h e.1).mpr (AList.mem_lookup_iff.mpr hmem)), rfl⟩

end HeadsUp.Lib
