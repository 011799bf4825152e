import Mathlib.Data.List.Lex
import Mathlib.Data.List.MinMax
import Mathlib.Order.Compare
import Mathlib.Algebra.Order.Group.Defs
import Mathlib.Algebra.Order.Group.Int
import Mathlib.Order.Bounds.Basic

/-!
# Comparison keys

Lists of integers compared at their first difference, and the loop that keeps
the best element seen so far. On lists of one length the first difference has
the sign of the lexicographic order; the running best is `List.argmax`.
-/

namespace HeadsUp.Lib

/-! ### First difference -/

/-- The difference at the first position where the lists differ, 0 when they
agree as far as both go. -/
def firstDifference : List ℤ → List ℤ → ℤ
  | x :: xs, y :: ys => if x ≠ y then x - y else firstDifference xs ys
  | _, _ => 0

def Key : Type := List ℤ

instance : LinearOrder Key := inferInstanceAs (LinearOrder (List ℤ))

def toKey (l : List ℤ) : Key := l

theorem toKey_inj {xs ys : List ℤ} : toKey xs = toKey ys ↔ xs = ys := Iff.rfl

theorem toKey_cons_lt {x y : ℤ} {xs ys : List ℤ} :
    toKey (x :: xs) < toKey (y :: ys) ↔ x < y ∨ x = y ∧ toKey xs < toKey ys :=
  List.cons_lt_cons_iff

theorem toKey_cons_lt_self {x : ℤ} {xs ys : List ℤ} :
    toKey (x :: xs) < toKey (x :: ys) ↔ toKey xs < toKey ys := by
  simp [toKey_cons_lt]

theorem cmp_cons_of_ne {x y : ℤ} (h : x ≠ y) (xs ys : List ℤ) :
    cmp (toKey (x :: xs)) (toKey (y :: ys)) = cmp x y := by
  rcases lt_or_gt_of_ne h with hlt | hgt
  · rw [(cmp_eq_lt_iff _ _).mpr hlt, (cmp_eq_lt_iff _ _).mpr (toKey_cons_lt.mpr (.inl hlt))]
  · rw [(cmp_eq_gt_iff _ _).mpr hgt, (cmp_eq_gt_iff _ _).mpr (toKey_cons_lt.mpr (.inl hgt))]

theorem cmp_cons_self (x : ℤ) (xs ys : List ℤ) :
    cmp (toKey (x :: xs)) (toKey (x :: ys)) = cmp (toKey xs) (toKey ys) := by
  rcases lt_trichotomy (toKey xs) (toKey ys) with h | h | h
  · rw [(cmp_eq_lt_iff _ _).mpr h, (cmp_eq_lt_iff _ _).mpr (toKey_cons_lt_self.mpr h)]
  · rw [toKey_inj.mp h, cmp_self_eq_eq, cmp_self_eq_eq]
  · rw [(cmp_eq_gt_iff _ _).mpr h, (cmp_eq_gt_iff _ _).mpr (toKey_cons_lt_self.mpr h)]

/-- On lists of equal length the sign of the first difference is the
lexicographic order. -/
theorem cmp_firstDifference {xs ys : List ℤ} (h : xs.length = ys.length) :
    cmp (firstDifference xs ys) 0 = cmp (toKey xs) (toKey ys) := by
  induction xs generalizing ys with
  | nil =>
    obtain rfl := List.eq_nil_of_length_eq_zero h.symm
    rw [cmp_self_eq_eq]
    rfl
  | cons x xs ih =>
    cases ys with
    | nil => simp at h
    | cons y ys =>
      by_cases hxy : x = y
      · subst hxy
        have hskip : firstDifference (x :: xs) (x :: ys) = firstDifference xs ys :=
          if_neg fun hne => hne rfl
        rw [hskip, ih (by simpa using h), cmp_cons_self]
      · have hdiff : firstDifference (x :: xs) (y :: ys) = x - y := if_pos hxy
        rw [hdiff, cmp_sub_zero, cmp_cons_of_ne hxy]

theorem firstDifference_pos_iff {xs ys : List ℤ} (h : xs.length = ys.length) :
    0 < firstDifference xs ys ↔ toKey ys < toKey xs := by
  rw [← cmp_eq_gt_iff, ← cmp_eq_gt_iff, cmp_firstDifference h]

/-! ### Keys with repetitions -/

/-- Each entry repeated as often as the multiplicity at its position says. -/
def spread : List ℕ → List ℤ → List ℤ
  | m :: ms, x :: xs => List.replicate m x ++ spread ms xs
  | _, _ => []

theorem toKey_replicate_append_lt {m : ℕ} (hm : 0 < m) {x y : ℤ} {xs ys : List ℤ} :
    toKey (List.replicate m x ++ xs) < toKey (List.replicate m y ++ ys) ↔
      x < y ∨ x = y ∧ toKey xs < toKey ys := by
  obtain ⟨k, rfl⟩ : ∃ k, m = k + 1 := ⟨m - 1, by omega⟩
  rw [List.replicate_succ, List.replicate_succ, List.cons_append, List.cons_append, toKey_cons_lt]
  refine or_congr_right (and_congr_right ?_)
  rintro rfl
  induction k with
  | zero => rfl
  | succ k ih =>
    rw [List.replicate_succ, List.cons_append, List.cons_append, toKey_cons_lt_self]
    exact ih (by omega)

theorem toKey_spread_lt {ms : List ℕ} (hpos : ∀ m ∈ ms, 0 < m) {xs ys : List ℤ}
    (hx : xs.length = ms.length) (hy : ys.length = ms.length) :
    toKey (spread ms xs) < toKey (spread ms ys) ↔ toKey xs < toKey ys := by
  induction ms generalizing xs ys with
  | nil =>
    obtain rfl := List.eq_nil_of_length_eq_zero hx
    obtain rfl := List.eq_nil_of_length_eq_zero hy
    rfl
  | cons m ms ih =>
    obtain ⟨x, xs, rfl⟩ := List.exists_cons_of_length_eq_add_one hx
    obtain ⟨y, ys, rfl⟩ := List.exists_cons_of_length_eq_add_one hy
    rw [spread, spread, toKey_replicate_append_lt (hpos m (by simp)), toKey_cons_lt,
      ih (fun k hk => hpos k (by simp [hk])) (by simpa using hx) (by simpa using hy)]

/-! ### The running best -/

section Best
variable {α β : Type*} [LinearOrder β]

/-- A loop that replaces its candidate by each strictly better element ends
with the first best one. -/
theorem foldl_better_eq_argmax (f : α → β) (x : α) (l : List α) :
    some (l.foldl (fun b c => if f b < f c then c else b) x) = (x :: l).argmax f := by
  have key : ∀ (l : List α) (x : α),
      l.foldl (List.argAux fun b c => f c < f b) (some x)
        = some (l.foldl (fun b c => if f b < f c then c else b) x) := by
    intro l
    induction l with
    | nil => intro x; rfl
    | cons y ys ih =>
      intro x
      rw [List.foldl_cons, List.foldl_cons, ← ih]
      congr 1
      by_cases h : f x < f y <;> simp [List.argAux, h]
  exact (key l x).symm

theorem argmax_of_split {f : α → β} {l₁ l₂ : List α} {m : α} (hlt : ∀ x ∈ l₁, f x < f m)
    (hle : ∀ x ∈ l₂, f x ≤ f m) : (l₁ ++ m :: l₂).argmax f = some m := by
  induction l₂ using List.reverseRecOn with
  | nil =>
    rw [List.argmax_concat]
    cases h : l₁.argmax f with
    | none => rfl
    | some c => exact if_pos (hlt c (List.argmax_mem h))
  | append_singleton l₂ a ih =>
    rw [← List.cons_append, ← List.append_assoc, List.argmax_concat,
      ih fun x hx => hle x (by simp [hx])]
    exact if_neg (not_lt.mpr (hle a (by simp)))

theorem exists_split {l : List α} (f : α → β) (hl : l ≠ []) :
    ∃ l₁ m l₂, l = l₁ ++ m :: l₂ ∧ (∀ x ∈ l₁, f x < f m) ∧ ∀ x ∈ l₂, f x ≤ f m := by
  induction l using List.reverseRecOn with
  | nil => exact absurd rfl hl
  | append_singleton l a ih =>
    by_cases hnil : l = []
    · exact ⟨[], a, [], by simp [hnil], by simp, by simp⟩
    obtain ⟨l₁, m, l₂, rfl, hlt, hle⟩ := ih hnil
    by_cases h : f m < f a
    · refine ⟨l₁ ++ m :: l₂, a, [], rfl, fun x hx => ?_, by simp⟩
      rcases List.mem_append.mp hx with hx | hx
      · exact (hlt x hx).trans h
      · rcases List.mem_cons.mp hx with rfl | hx
        · exact h
        · exact (hle x hx).trans_lt h
    · refine ⟨l₁, m, l₂ ++ [a], by simp, hlt, fun x hx => ?_⟩
      rcases List.mem_append.mp hx with hx | hx
      · exact hle x hx
      · exact List.mem_singleton.mp hx ▸ not_lt.mp h

end Best

theorem foldlM_ok {ε α β : Type*} {f : β → α → Except ε β} {g : β → α → β} (l : List α)
    (h : ∀ a ∈ l, ∀ b, f b a = .ok (g b a)) (b : β) : l.foldlM f b = .ok (l.foldl g b) := by
  induction l generalizing b with
  | nil => rfl
  | cons a as ih =>
    rw [List.foldlM_cons, h a (by simp), List.foldl_cons]
    exact ih (fun x hx => h x (by simp [hx])) (g b a)

theorem mapM_ok {ε α β : Type*} {f : α → Except ε β} {g : α → β} (l : List α)
    (h : ∀ a ∈ l, f a = .ok (g a)) : l.mapM f = .ok (l.map g) := by
  induction l with
  | nil => rfl
  | cons a as ih =>
    rw [List.mapM_cons, h a (by simp), ih fun x hx => h x (by simp [hx])]
    rfl

theorem mapM_ok_mem {ε α β : Type*} {f : α → Except ε β} {l : List α} {r : List β}
    (h : l.mapM f = .ok r) {b : β} (hb : b ∈ r) : ∃ a ∈ l, f a = .ok b := by
  induction l generalizing r with
  | nil =>
    obtain rfl : [] = r := by simpa [pure, Except.pure] using h
    simp at hb
  | cons x xs ih =>
    rw [List.mapM_cons] at h
    cases hx : f x with
    | error e => simp [hx, bind, Except.bind] at h
    | ok y =>
      cases hxs : xs.mapM f with
      | error e => simp [hx, hxs, bind, Except.bind] at h
      | ok ys =>
        obtain rfl : y :: ys = r := by simpa [hx, hxs, bind, Except.bind, pure, Except.pure] using h
        rcases List.mem_cons.mp hb with rfl | hb
        · exact ⟨x, by simp, hx⟩
        · obtain ⟨a, ha, hfa⟩ := ih hxs hb
          exact ⟨a, by simp [ha], hfa⟩
end HeadsUp.Lib
