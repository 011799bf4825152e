import Mathlib.Algebra.Ring.Nat
import Mathlib.Data.List.Sublists
import Mathlib.Data.List.Range

/-!
# Enumerating k-subsets by index vectors

The successor loop on increasing index vectors `i₁ < … < i_k < n`: raise the
last index that can still be raised and restart the ones after it. Started at
`0, …, k-1` it visits every k-subset of the positions once, in lexicographic
order; Mathlib's `List.sublistsLen` lists the same subsets backwards.
-/

namespace HeadsUp.Lib

/-- Scan from position `i - 1` down for an index below its maximum
`n - k + i`. -/
def lastRaisable (n : ℕ) (indices : List ℕ) : ℕ → Option ℕ
  | 0 => none
  | i + 1 =>
    if indices.getD i 0 + indices.length = n + i then lastRaisable n indices i else some i

/-- The next index vector: position `i` is raised and every later position
becomes its predecessor plus one. -/
def nextCombination (n : ℕ) (indices : List ℕ) : Option (List ℕ) :=
  (lastRaisable n indices indices.length).map fun i =>
    indices.take i ++ List.range' (indices.getD i 0 + 1) (indices.length - i)

/-- The loop that records a vector and moves to the next; `none` when the fuel
runs out before the last vector. -/
def combinationLoop (n : ℕ) : ℕ → List ℕ → Option (List (List ℕ))
  | 0, _ => none
  | fuel + 1, indices =>
    match nextCombination n indices with
    | none => some [indices]
    | some next => (combinationLoop n fuel next).map (indices :: ·)

/-- All increasing vectors of `k` indices from `m` positions starting at `lo`,
in lexicographic order. -/
def choices : ℕ → ℕ → ℕ → List (List ℕ)
  | 0, _, _ => [[]]
  | _ + 1, _, 0 => []
  | k + 1, lo, m + 1 => (choices k (lo + 1) m).map (lo :: ·) ++ choices (k + 1) (lo + 1) m

/-! ### The successor -/

theorem lastRaisable_cons (n x : ℕ) (v : List ℕ) (i : ℕ) :
    lastRaisable n (x :: v) (i + 1) =
      match lastRaisable n v i with
      | some j => some (j + 1)
      | none => if x + (v.length + 1) = n then none else some 0 := by
  induction i with
  | zero => simp [lastRaisable]
  | succ i ih =>
    rw [lastRaisable, ih]
    by_cases h : v.getD i 0 + v.length = n + i
    · have hx : (x :: v).getD (i + 1) 0 + (x :: v).length = n + (i + 1) := by
        simp only [List.getD_cons_succ, List.length_cons]
        omega
      rw [if_pos hx, lastRaisable, if_pos h]
    · have hx : ¬ (x :: v).getD (i + 1) 0 + (x :: v).length = n + (i + 1) := by
        simp only [List.getD_cons_succ, List.length_cons]
        omega
      rw [if_neg hx, lastRaisable, if_neg h]

/-- The successor, first index first: move the tail if it can move, else raise
the head and restart the tail. -/
theorem nextCombination_cons (n x : ℕ) (v : List ℕ) :
    nextCombination n (x :: v) =
      match nextCombination n v with
      | some w => some (x :: w)
      | none => if x + (v.length + 1) = n then none
                else some (List.range' (x + 1) (v.length + 1)) := by
  simp only [nextCombination, List.length_cons]
  rw [lastRaisable_cons]
  cases h : lastRaisable n v v.length with
  | some j => simp
  | none =>
    by_cases hx : x + (v.length + 1) = n
    · simp [hx]
    · simp [hx]

/-! ### The loop follows the enumeration -/

/-- Consecutive vectors of the list are successors and the last one has none. -/
def Follows (n : ℕ) : List (List ℕ) → Prop
  | [] => True
  | [v] => nextCombination n v = none
  | v :: w :: rest => nextCombination n v = some w ∧ Follows n (w :: rest)

/-- The rule for loops that go from a vector to its successor: along a chain of
successors, with more fuel than there are steps, they come to the end. -/
theorem Follows.loop_induction {n : ℕ} {motive : ℕ → List ℕ → List (List ℕ) → Prop}
    (last : ∀ fuel v, nextCombination n v = none → motive (fuel + 1) v [])
    (step : ∀ fuel v w rest, nextCombination n v = some w → motive fuel w rest →
      motive (fuel + 1) v (w :: rest))
    {v : List ℕ} {rest : List (List ℕ)} (h : Follows n (v :: rest)) {fuel : ℕ}
    (hf : rest.length < fuel) : motive fuel v rest := by
  obtain ⟨f, rfl⟩ : ∃ f, fuel = f + 1 := ⟨fuel - 1, by omega⟩
  induction rest generalizing v f with
  | nil => exact last f v h
  | cons w rest ih =>
    obtain ⟨hnext, hrest⟩ := h
    simp only [List.length_cons] at hf
    obtain ⟨f, rfl⟩ : ∃ f', f = f' + 1 := ⟨f - 1, by omega⟩
    exact step (f + 1) v w rest hnext (ih hrest f (by omega))

theorem Follows.loop {n : ℕ} {v : List ℕ} {rest : List (List ℕ)} (h : Follows n (v :: rest))
    {fuel : ℕ} (hf : rest.length < fuel) : combinationLoop n fuel v = some (v :: rest) := by
  refine Follows.loop_induction
    (motive := fun fuel v rest => combinationLoop n fuel v = some (v :: rest)) ?_ ?_ h hf
  · intro fuel v hlast
    rw [combinationLoop, hlast]
  · intro fuel v w rest hnext ih
    rw [combinationLoop, hnext]
    simp only
    rw [ih]
    rfl

theorem choices_eq_nil {k lo m : ℕ} (h : m < k) : choices k lo m = [] := by
  induction m generalizing k lo with
  | zero => cases k with
    | zero => omega
    | succ k => rfl
  | succ m ih => cases k with
    | zero => omega
    | succ k => rw [choices, ih (by omega), ih (by omega)]; rfl

theorem length_of_mem_choices {k lo m : ℕ} {v : List ℕ} (h : v ∈ choices k lo m) :
    v.length = k := by
  induction m generalizing k lo v with
  | zero => cases k with
    | zero => simp [choices] at h; simp [h]
    | succ k => simp [choices] at h
  | succ m ih => cases k with
    | zero => simp [choices] at h; simp [h]
    | succ k =>
      simp only [choices, List.mem_append, List.mem_map] at h
      rcases h with ⟨w, hw, rfl⟩ | h
      · simp [ih hw]
      · exact ih h

theorem choices_head {k m : ℕ} (h : k ≤ m) (lo : ℕ) :
    ∃ rest, choices k lo m = List.range' lo k :: rest := by
  induction k generalizing lo m with
  | zero => exact ⟨[], by cases m <;> rfl⟩
  | succ k ih =>
    obtain ⟨m, rfl⟩ : ∃ m', m = m' + 1 := ⟨m - 1, by omega⟩
    obtain ⟨rest, hr⟩ := ih (show k ≤ m by omega) (lo + 1)
    exact ⟨rest.map (lo :: ·) ++ choices (k + 1) (lo + 1) m, by
      rw [choices, hr]; simp [List.range'_succ]⟩

/-- Putting `x` in front of a chain keeps it a chain, and its end moves on to
the restarted vector when `x` can be raised. -/
theorem Follows.cons_append {n x k : ℕ} {vs ws : List (List ℕ)} (hv : Follows n vs)
    (hlen : ∀ v ∈ vs, v.length = k) (hne : vs ≠ [])
    (hend : (x + (k + 1) = n ∧ ws = []) ∨
      (x + (k + 1) ≠ n ∧ Follows n ws ∧ ∃ rest, ws = List.range' (x + 1) (k + 1) :: rest)) :
    Follows n (vs.map (x :: ·) ++ ws) := by
  induction vs with
  | nil => exact absurd rfl hne
  | cons v vs ih =>
    cases vs with
    | nil =>
      -- the last tail cannot move: the head is raised, or the list ends
      have hk : v.length = k := hlen v (by simp)
      have hnone : nextCombination n v = none := hv
      rcases hend with ⟨hx, rfl⟩ | ⟨hx, hws, rest, rfl⟩
      · simp only [List.map_cons, List.map_nil, List.append_nil, Follows]
        rw [nextCombination_cons, hnone]
        simp [hk, hx]
      · simp only [List.map_cons, List.map_nil, List.cons_append, List.nil_append, Follows]
        refine ⟨?_, hws⟩
        rw [nextCombination_cons, hnone]
        simp [hk, hx]
    | cons w rest =>
      obtain ⟨hn, hrest⟩ := hv
      have hih := ih hrest (fun u hu => hlen u (by simp [hu])) (by simp)
      simp only [List.map_cons, List.cons_append, Follows] at hih ⊢
      refine ⟨?_, hih⟩
      rw [nextCombination_cons, hn]

theorem choices_follows {k lo m n : ℕ} (h : k ≤ m) (hn : lo + m = n) :
    Follows n (choices k lo m) := by
  induction m generalizing k lo with
  | zero =>
    obtain rfl : k = 0 := by omega
    exact rfl
  | succ m ih =>
    cases k with
    | zero => exact rfl
    | succ k =>
      obtain ⟨rest, hr⟩ := choices_head (show k ≤ m by omega) (lo + 1)
      rw [choices]
      refine Follows.cons_append (k := k) (ih (by omega) (by omega))
        (fun v hv => length_of_mem_choices hv) (by rw [hr]; simp) ?_
      by_cases hk : k + 1 ≤ m
      · obtain ⟨rest', hr'⟩ := choices_head hk (lo + 1)
        exact .inr ⟨by omega, ih hk (by omega), rest', hr'⟩
      · exact .inl ⟨by omega, choices_eq_nil (by omega)⟩

/-! ### The enumeration is `sublistsLen` -/

theorem choices_eq_sublistsLen (k lo m : ℕ) :
    choices k lo m = (List.sublistsLen k (List.range' lo m)).reverse := by
  induction m generalizing k lo with
  | zero => cases k with
    | zero => rfl
    | succ k => rfl
  | succ m ih => cases k with
    | zero => simp [choices]
    | succ k =>
      rw [choices, List.range'_succ, List.sublistsLen_succ_cons, List.reverse_append, ih, ih,
        List.map_reverse]

theorem length_choices (k lo m : ℕ) : (choices k lo m).length = m.choose k := by
  rw [choices_eq_sublistsLen, List.length_reverse, List.length_sublistsLen, List.length_range']

/-- With enough fuel the loop from `0, …, k-1` lists all the choices. -/
theorem combinationLoop_eq {n k fuel : ℕ} (hk : k ≤ n) (hf : n.choose k ≤ fuel) :
    combinationLoop n fuel (List.range' 0 k) = some (choices k 0 n) := by
  obtain ⟨rest, hr⟩ := choices_head hk 0
  have hlen := length_choices k 0 n
  rw [hr] at hlen ⊢
  refine Follows.loop (hr ▸ choices_follows hk (Nat.zero_add n)) ?_
  simp only [List.length_cons] at hlen
  omega

theorem sublistsLen_map {α β : Type*} (f : α → β) (k : ℕ) (l : List α) :
    List.sublistsLen k (l.map f) = (List.sublistsLen k l).map (List.map f) := by
  induction l generalizing k with
  | nil => cases k <;> simp
  | cons a l ih => cases k with
    | zero => simp
    | succ k => simp [List.sublistsLen_succ_cons, ih, Function.comp_def]

theorem map_choices_eq {α : Type*} (d : α) (l : List α) (k : ℕ) :
    (choices k 0 l.length).map (fun v => v.map fun i => l.getD i d)
      = (List.sublistsLen k l).reverse := by
  have hl : l = (List.range' 0 l.length).map fun i => l.getD i d := by
    apply List.ext_getElem
    · simp
    · intro i h1 h2
      simp [List.getD_eq_getElem?_getD, h1]
  conv_rhs => rw [hl, sublistsLen_map]
  rw [choices_eq_sublistsLen, List.map_reverse]

/-! ### What the choices are -/

theorem mem_choices_iff {k lo m : ℕ} {v : List ℕ} :
    v ∈ choices k lo m ↔
      v.length = k ∧ v.Pairwise (· < ·) ∧ ∀ i ∈ v, lo ≤ i ∧ i < lo + m := by
  induction m generalizing k lo v with
  | zero =>
    cases k with
    | zero =>
      rw [choices, List.mem_singleton, List.length_eq_zero_iff]
      refine (and_iff_left_of_imp ?_).symm
      rintro rfl
      simp
    | succ k =>
      refine iff_of_false (by simp [choices]) fun hh => ?_
      obtain ⟨hlen, -, hbounds⟩ := hh
      cases v with
      | nil => cases hlen
      | cons x v =>
        have hx := hbounds x List.mem_cons_self
        omega
  | succ m ih =>
    cases k with
    | zero =>
      rw [choices, List.mem_singleton, List.length_eq_zero_iff]
      refine (and_iff_left_of_imp ?_).symm
      rintro rfl
      simp
    | succ k =>
      rw [choices, List.mem_append, List.mem_map, ih]
      constructor
      · rintro (⟨w, hw, rfl⟩ | ⟨hlen, hlt, hbounds⟩)
        · obtain ⟨hlen, hlt, hbounds⟩ := ih.mp hw
          refine ⟨by rw [List.length_cons, hlen], ?_, List.forall_mem_cons.mpr ⟨by omega, ?_⟩⟩
          · exact List.pairwise_cons.mpr ⟨fun i hi => (hbounds i hi).1, hlt⟩
          · intro i hi
            have := hbounds i hi
            omega
        · refine ⟨hlen, hlt, fun i hi => ?_⟩
          have := hbounds i hi
          omega
      · intro hh
        obtain ⟨hlen, hlt, hbounds⟩ := hh
        cases v with
        | nil => cases hlen
        | cons x w =>
          obtain ⟨hhead, htail⟩ := List.pairwise_cons.mp hlt
          obtain ⟨hx, hw⟩ := List.forall_mem_cons.mp hbounds
          by_cases hlo : x = lo
          · -- the first position is taken
            subst hlo
            refine .inl ⟨w, ih.mpr ⟨by simpa using hlen, htail, fun i hi => ?_⟩, rfl⟩
            have hi' := hhead i hi
            have hi'' := hw i hi
            omega
          · refine .inr ⟨hlen, hlt, List.forall_mem_cons.mpr ⟨by omega, fun i hi => ?_⟩⟩
            have hi' := hhead i hi
            have hi'' := hw i hi
            omega

/-- The choices come in lexicographic order. -/
theorem choices_sorted (k lo m : ℕ) : (choices k lo m).Pairwise (· < ·) := by
  induction m generalizing k lo with
  | zero => cases k <;> simp [choices]
  | succ m ih =>
    cases k with
    | zero => simp [choices]
    | succ k =>
      rw [choices]
      refine List.pairwise_append.mpr ⟨?_, ih (k + 1) (lo + 1), fun v hv w hw => ?_⟩
      · exact (ih k (lo + 1)).map _ fun v w h => List.cons_lt_cons_iff.mpr (.inr ⟨rfl, h⟩)
      · obtain ⟨v, -, rfl⟩ := List.mem_map.mp hv
        obtain ⟨hlen, -, hbounds⟩ := mem_choices_iff.mp hw
        cases w with
        | nil => cases hlen
        | cons x w =>
          have hx := hbounds x List.mem_cons_self
          exact List.cons_lt_cons_iff.mpr (.inl (by omega))

theorem choices_nodup (k lo m : ℕ) : (choices k lo m).Nodup :=
  (choices_sorted k lo m).imp fun h => h.ne

/-! ### The successor as two loops -/

/-- The loop that sets `steps` positions from `j` on to their predecessors plus
one. -/
def restart (indices : List ℕ) (j : ℕ) : ℕ → List ℕ
  | 0 => indices
  | steps + 1 => restart (indices.set j (indices.getD (j - 1) 0 + 1)) (j + 1) steps

theorem restart_append (pre : List ℕ) (x : ℕ) (post : List ℕ) :
    restart (pre ++ x :: post) (pre.length + 1) post.length
      = pre ++ x :: List.range' (x + 1) post.length := by
  induction post generalizing pre x with
  | nil => rfl
  | cons y post ih =>
    have hset : (pre ++ x :: y :: post).set (pre.length + 1)
        ((pre ++ x :: y :: post).getD (pre.length + 1 - 1) 0 + 1)
        = (pre ++ [x]) ++ (x + 1) :: post := by
      simp
    have ih := ih (pre ++ [x]) (x + 1)
    rw [List.length_append, List.length_singleton] at ih
    rw [List.length_cons, restart, hset, ih, List.range'_succ, List.append_assoc,
      List.singleton_append]

theorem lastRaisable_lt {n i k : ℕ} {v : List ℕ} (h : lastRaisable n v k = some i) : i < k := by
  induction k with
  | zero => cases h
  | succ k ih =>
    rw [lastRaisable] at h
    split_ifs at h with hmax
    · exact (ih h).trans (Nat.lt_succ_self k)
    · obtain rfl := Option.some.inj h
      exact Nat.lt_succ_self _

/-- Raising the last index that can be raised and then restarting the later ones. -/
theorem nextCombination_eq_loops (n : ℕ) (v : List ℕ) :
    nextCombination n v = (lastRaisable n v v.length).map fun i =>
      restart (v.set i (v.getD i 0 + 1)) (i + 1) (v.length - (i + 1)) := by
  rw [nextCombination]
  refine Option.map_congr fun i hi => ?_
  have hlt := lastRaisable_lt hi
  have hpre : (v.take i).length = i := by
    rw [List.length_take]
    omega
  have hpost : (v.drop (i + 1)).length = v.length - (i + 1) := List.length_drop ..
  have hcount : v.length - i = v.length - (i + 1) + 1 := by omega
  have hloop := restart_append (v.take i) (v.getD i 0 + 1) (v.drop (i + 1))
  rw [hpre, hpost] at hloop
  rw [List.set_eq_take_append_cons_drop, if_pos hlt, hloop, hcount, List.range'_succ]

end HeadsUp.Lib
