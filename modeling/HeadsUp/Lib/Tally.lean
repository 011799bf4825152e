import Mathlib.Algebra.Ring.Int.Defs
import Mathlib.Algebra.Ring.Nat
import Mathlib.Data.List.AList
import Mathlib.Data.List.Sort
import Mathlib.Data.List.Perm.Basic
import Mathlib.Order.Basic

/-!
# Tallies

Counting the occurrences of a list's elements in an association list, reading
the counts back in an unknown iteration order, and the canonical order of the
groups: by multiplicity first, then by element.
-/

namespace HeadsUp.Lib

/-- An unknown reordering of lists: the iteration order of a hash table, the
outcome of a shuffle. -/
structure Shuffle (α : Type*) where
  apply : List α → List α
  perm : ∀ l, (apply l).Perm l

def Shuffle.refl (α : Type*) : Shuffle α := ⟨id, List.Perm.refl⟩

/-! ### Descending sort -/

section Descending
variable {α : Type*} [LinearOrder α]

def sortDescending (l : List α) : List α := l.insertionSort (· ≥ ·)

theorem sortDescending_perm (l : List α) : (sortDescending l).Perm l :=
  List.perm_insertionSort _ l

theorem sortDescending_sorted (l : List α) : (sortDescending l).Pairwise (· ≥ ·) :=
  List.pairwise_insertionSort _ l

theorem sortDescending_eq {l s : List α} (h : l.Perm s) (hs : s.Pairwise (· ≥ ·)) :
    sortDescending l = s :=
  ((sortDescending_perm l).trans h).eq_of_pairwise' (sortDescending_sorted l) hs

theorem sortDescending_congr {l l' : List α} (h : l.Perm l') :
    sortDescending l = sortDescending l' :=
  sortDescending_eq (h.trans (sortDescending_perm l').symm) (sortDescending_sorted l')

@[simp] theorem length_sortDescending (l : List α) : (sortDescending l).length = l.length :=
  (sortDescending_perm l).length_eq

end Descending

/-! ### Counting -/

section Tally
variable {α : Type*} [DecidableEq α]

/-- `for x in l: count[x]++`. -/
def tally (l : List α) : AList fun _ : α => ℕ :=
  l.foldl (fun m x => m.insert x ((m.lookup x).getD 0 + 1)) ∅

theorem lookup_foldl_bump (l : List α) (m : AList fun _ : α => ℕ) (x : α) :
    ((l.foldl (fun m x => m.insert x ((m.lookup x).getD 0 + 1)) m).lookup x).getD 0
      = (m.lookup x).getD 0 + l.count x := by
  induction l generalizing m with
  | nil => simp
  | cons y ys ih =>
    rw [List.foldl_cons, ih]
    by_cases h : x = y
    · subst h
      simp only [AList.lookup_insert, Option.getD_some, List.count_cons_self]
      omega
    · rw [AList.lookup_insert_ne h, List.count_cons_of_ne (Ne.symm h)]

theorem mem_foldl_bump (l : List α) (m : AList fun _ : α => ℕ) (x : α) :
    x ∈ l.foldl (fun m x => m.insert x ((m.lookup x).getD 0 + 1)) m ↔ x ∈ m ∨ x ∈ l := by
  induction l generalizing m with
  | nil => simp
  | cons y ys ih =>
    rw [List.foldl_cons, ih, AList.mem_insert, List.mem_cons]
    tauto

theorem lookup_tally_getD (l : List α) (x : α) :
    ((tally l).lookup x).getD 0 = l.count x := by
  rw [tally, lookup_foldl_bump, AList.lookup_empty, Option.getD_none, Nat.zero_add]

theorem mem_tally (l : List α) (x : α) : x ∈ tally l ↔ x ∈ l := by
  rw [tally, mem_foldl_bump]
  simp

theorem lookup_tally (l : List α) (x : α) :
    (tally l).lookup x = if x ∈ l then some (l.count x) else none := by
  have hcount := lookup_tally_getD l x
  split_ifs with h
  · obtain ⟨n, hn⟩ :=
      Option.isSome_iff_exists.mp (AList.lookup_isSome.mpr ((mem_tally l x).mpr h))
    rw [hn] at hcount ⊢
    simpa using hcount
  · exact AList.lookup_eq_none.mpr (mt (mem_tally l x).mp h)

theorem tally_perm {l l' : List α} (h : l.Perm l') :
    (tally l).entries.Perm (tally l').entries := by
  refine List.lookup_ext (tally l).nodupKeys (tally l').nodupKeys fun x n => ?_
  show n ∈ (tally l).lookup x ↔ n ∈ (tally l').lookup x
  simp only [lookup_tally, h.count_eq x, h.mem_iff]

theorem tally_pos (l : List α) : ∀ e ∈ (tally l).entries, 0 < e.2 := by
  intro hh he
  obtain ⟨x, n⟩ := hh
  have hn : (tally l).lookup x = some n := AList.mem_lookup_iff.mpr he
  rw [lookup_tally] at hn
  split_ifs at hn with hx
  obtain rfl := Option.some.inj hn
  exact List.count_pos_iff.mpr hx

def expand (es : List (Σ _ : α, ℕ)) : List α := es.flatMap fun e => List.replicate e.2 e.1

omit [DecidableEq α] in
@[simp] theorem expand_nil : expand ([] : List (Σ _ : α, ℕ)) = [] := rfl

omit [DecidableEq α] in
@[simp] theorem expand_cons (e : Σ _ : α, ℕ) (es : List (Σ _ : α, ℕ)) :
    expand (e :: es) = List.replicate e.2 e.1 ++ expand es := rfl

omit [DecidableEq α] in
theorem length_expand (es : List (Σ _ : α, ℕ)) :
    (expand es).length = (es.map fun e => e.2).sum := by
  induction es with
  | nil => rfl
  | cons e es ih => simp [ih]

omit [DecidableEq α] in
theorem expand_perm {es es' : List (Σ _ : α, ℕ)} (h : es.Perm es') :
    (expand es).Perm (expand es') := h.flatMap_right _

theorem count_expand (es : List (Σ _ : α, ℕ)) (h : es.NodupKeys) (x : α) :
    (expand es).count x = (es.dlookup x).getD 0 := by
  induction es with
  | nil => rfl
  | cons e es ih =>
    obtain ⟨hk, ht⟩ := List.nodupKeys_cons.mp h
    rw [expand_cons, List.count_append, ih ht]
    by_cases hx : x = e.1
    · subst hx
      have hnone : es.dlookup e.1 = none := List.dlookup_eq_none.mpr hk
      have hself : (e :: es).dlookup e.1 = some e.2 := List.dlookup_cons_eq es e.1 e.2
      simp [hnone, hself]
    · rw [List.dlookup_cons_ne es e hx, List.count_replicate,
        if_neg (by simpa using Ne.symm hx), Nat.zero_add]

theorem expand_tally_perm (l : List α) : (expand (tally l).entries).Perm l := by
  refine List.perm_iff_count.mpr fun x => ?_
  rw [count_expand _ (tally l).nodupKeys]
  exact lookup_tally_getD l x

/-! ### Reading a table in any order -/

omit [DecidableEq α] in
/-- The loop `for e in es: if p e: key = e.first`, from the value `d`. -/
def lastKey (p : (Σ _ : α, ℕ) → Bool) (d : α) (es : List (Σ _ : α, ℕ)) : α :=
  es.foldl (fun acc e => if p e then e.1 else acc) d

omit [DecidableEq α] in
theorem lastKey_of_filter_nil {p : (Σ _ : α, ℕ) → Bool} {es : List (Σ _ : α, ℕ)}
    (h : es.filter p = []) (d : α) : lastKey p d es = d := by
  induction es with
  | nil => rfl
  | cons x xs ih =>
    rw [List.filter_cons] at h
    split_ifs at h with hx
    simp only [lastKey, List.foldl_cons, hx, Bool.false_eq_true, if_false]
    exact ih h

omit [DecidableEq α] in
theorem lastKey_of_filter {p : (Σ _ : α, ℕ) → Bool} {es : List (Σ _ : α, ℕ)} {e : Σ _ : α, ℕ}
    (h : es.filter p = [e]) (d : α) : lastKey p d es = e.1 := by
  induction es generalizing d with
  | nil => simp at h
  | cons x xs ih =>
    rw [List.filter_cons] at h
    split_ifs at h with hx
    · obtain ⟨rfl, hnil⟩ := List.cons.inj h
      simp only [lastKey, List.foldl_cons, hx, if_true]
      exact lastKey_of_filter_nil hnil _
    · simp only [lastKey, List.foldl_cons, hx, Bool.false_eq_true, if_false]
      exact ih h d

omit [DecidableEq α] in
theorem lastKey_perm {p : (Σ _ : α, ℕ) → Bool} {es es' : List (Σ _ : α, ℕ)} {e : Σ _ : α, ℕ}
    (h : es.Perm es') (he : es'.filter p = [e]) (d : α) : lastKey p d es = e.1 := by
  have hf : (es.filter p).Perm [e] := he ▸ h.filter p
  exact lastKey_of_filter (List.perm_singleton.mp hf) d

end Tally

/-! ### Groups by multiplicity -/

section Groups
variable {α : Type*} [LinearOrder α]

/-- `e` comes before `f`: larger multiplicity, or equal and not smaller key. -/
def Before (e f : Σ _ : α, ℕ) : Prop := f.2 < e.2 ∨ f.2 = e.2 ∧ f.1 ≤ e.1

instance : DecidableRel (Before (α := α)) := fun e f =>
  inferInstanceAs (Decidable (f.2 < e.2 ∨ f.2 = e.2 ∧ f.1 ≤ e.1))

instance : Std.Total (Before (α := α)) where
  total e f := by
    unfold Before
    rcases lt_trichotomy e.2 f.2 with h | h | h
    · exact .inr (.inl h)
    · exact (le_total f.1 e.1).imp (fun hl => .inr ⟨h.symm, hl⟩) (fun hl => .inr ⟨h, hl⟩)
    · exact .inl (.inl h)

instance : IsTrans (Σ _ : α, ℕ) Before where
  trans e f g := by
    rintro (h | ⟨h, hl⟩) (h' | ⟨h', hl'⟩)
    · exact .inl (h'.trans h)
    · exact .inl (h' ▸ h)
    · exact .inl (h ▸ h')
    · exact .inr ⟨h'.trans h, hl'.trans hl⟩

instance : Std.Antisymm (Before (α := α)) where
  antisymm e f := by
    obtain ⟨x, n⟩ := e
    obtain ⟨y, m⟩ := f
    rintro (h | ⟨h, hl⟩) (h' | ⟨h', hl'⟩)
    · exact absurd h h'.asymm
    · exact absurd h (by simp only at h' ⊢; omega)
    · exact absurd h' (by simp only at h ⊢; omega)
    · obtain rfl : m = n := h
      obtain rfl : x = y := le_antisymm hl' hl
      rfl

/-- The elements of a list with their multiplicities, the largest group first. -/
def groups (l : List α) : List (Σ _ : α, ℕ) := (tally l).entries.insertionSort Before

theorem groups_perm (l : List α) : (groups l).Perm (tally l).entries :=
  List.perm_insertionSort _ _

theorem groups_sorted (l : List α) : (groups l).Pairwise Before :=
  List.pairwise_insertionSort _ _

theorem groups_congr {l l' : List α} (h : l.Perm l') : groups l = groups l' :=
  ((groups_perm l).trans ((tally_perm h).trans (groups_perm l').symm)).eq_of_pairwise'
    (groups_sorted l) (groups_sorted l')

theorem groups_pos (l : List α) : ∀ e ∈ groups l, 0 < e.2 :=
  fun e he => tally_pos l e ((groups_perm l).mem_iff.mp he)

theorem groups_count {l : List α} {e : Σ _ : α, ℕ} (he : e ∈ groups l) : e.2 = l.count e.1 := by
  have hl : (tally l).lookup e.1 = some e.2 :=
    AList.mem_lookup_iff.mpr ((groups_perm l).mem_iff.mp he)
  have hc := lookup_tally_getD l e.1
  rw [hl] at hc
  exact hc

theorem groups_keys_nodup (l : List α) : ((groups l).map fun e => e.1).Nodup :=
  ((groups_perm l).map _).nodup_iff.mpr (tally l).keys_nodup

theorem expand_groups_perm (l : List α) : (expand (groups l)).Perm l :=
  (expand_perm (groups_perm l)).trans (expand_tally_perm l)

theorem groups_total (l : List α) : ((groups l).map fun e => e.2).sum = l.length := by
  rw [← length_expand, (expand_groups_perm l).length_eq]

end Groups
end HeadsUp.Lib
