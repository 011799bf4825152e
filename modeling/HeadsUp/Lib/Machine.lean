import Mathlib.Algebra.BigOperators.Group.List.Basic
import Mathlib.Algebra.Ring.Int.Defs
import Mathlib.Algebra.Ring.Nat
import Mathlib.Data.List.Infix

/-!
# Runs of reactive machines

A machine takes one event at a time, moves to a new state and emits outputs.
This module has the induction rules for its runs: an invariant is checked once
per step, and a quantity that each step changes by what it emits is, after any
run, its initial value plus everything emitted.
-/

namespace HeadsUp.Lib

/-- A deterministic machine with outputs. Nondeterminism of the environment
is part of the event. -/
structure Machine (σ ε ω : Type*) where
  init : σ
  step : σ → ε → σ × List ω

namespace Machine

variable {σ ε ω : Type*} (M : Machine σ ε ω)

def next (s : σ) (e : ε) : σ := (M.step s e).1
def emits (s : σ) (e : ε) : List ω := (M.step s e).2

def run (es : List ε) : σ := es.foldl M.next M.init

def traceFrom (s : σ) : List ε → List ω
  | [] => []
  | e :: es => M.emits s e ++ traceFrom (M.next s e) es

def trace (es : List ε) : List ω := M.traceFrom M.init es

@[simp] theorem run_nil : M.run [] = M.init := rfl

@[simp] theorem run_concat (es : List ε) (e : ε) :
    M.run (es ++ [e]) = M.next (M.run es) e := by
  simp [run]

theorem traceFrom_concat (s : σ) (es : List ε) (e : ε) :
    M.traceFrom s (es ++ [e]) = M.traceFrom s es ++ M.emits (es.foldl M.next s) e := by
  induction es generalizing s with
  | nil => simp [traceFrom]
  | cons x xs ih => simp [traceFrom, ih]

@[simp] theorem trace_nil : M.trace [] = [] := rfl

theorem run_append (es fs : List ε) : M.run (es ++ fs) = fs.foldl M.next (M.run es) :=
  List.foldl_append

theorem traceFrom_append (s : σ) (es fs : List ε) :
    M.traceFrom s (es ++ fs) = M.traceFrom s es ++ M.traceFrom (es.foldl M.next s) fs := by
  induction es generalizing s with
  | nil => rfl
  | cons x xs ih => simp [traceFrom, ih]

theorem trace_append (es fs : List ε) :
    M.trace (es ++ fs) = M.trace es ++ M.traceFrom (M.run es) fs :=
  M.traceFrom_append M.init es fs

@[simp] theorem trace_concat (es : List ε) (e : ε) :
    M.trace (es ++ [e]) = M.trace es ++ M.emits (M.run es) e :=
  M.traceFrom_concat M.init es e

def logFrom (s : σ) : List ε → List (ε × List ω)
  | [] => []
  | e :: es => (e, M.emits s e) :: logFrom (M.next s e) es

/-- Each event with what it made the machine emit. -/
def log (es : List ε) : List (ε × List ω) := M.logFrom M.init es

theorem logFrom_concat (s : σ) (es : List ε) (e : ε) :
    M.logFrom s (es ++ [e]) = M.logFrom s es ++ [(e, M.emits (es.foldl M.next s) e)] := by
  induction es generalizing s with
  | nil => rfl
  | cons x xs ih => simp [logFrom, ih]

@[simp] theorem log_nil : M.log [] = [] := rfl

@[simp] theorem log_concat (es : List ε) (e : ε) :
    M.log (es ++ [e]) = M.log es ++ [(e, M.emits (M.run es) e)] :=
  M.logFrom_concat M.init es e

/-- `P` holds of each step of the run: of the state it starts in and its event. -/
def EveryStep (P : σ → ε → Prop) (es : List ε) : Prop :=
  ∀ pre e, pre ++ [e] <+: es → P (M.run pre) e

theorem everyStep_nil (P : σ → ε → Prop) : M.EveryStep P [] := by
  intro pre e h
  simp at h

theorem everyStep_concat (P : σ → ε → Prop) (es : List ε) (e : ε) :
    M.EveryStep P (es ++ [e]) ↔ M.EveryStep P es ∧ P (M.run es) e := by
  constructor
  · intro h
    exact ⟨fun pre x hx => h pre x (hx.trans (List.prefix_append es [e])),
      h es e (List.prefix_refl _)⟩
  · intro hh pre x hx
    obtain ⟨hes, he⟩ := hh
    rcases List.prefix_concat_iff.mp hx with hx | hx
    · obtain ⟨rfl, rfl⟩ : pre = es ∧ x = e := by simpa using hx
      exact he
    · exact hes pre x hx

theorem everyStep_upTo {P : σ → ε → Prop} {es pre : List ε} (h : M.EveryStep P es)
    (hpre : pre <+: es) : M.EveryStep P pre :=
  fun _ _ hp => h _ _ (hp.trans hpre)

theorem everyStep_congr {P Q : σ → ε → Prop} (h : ∀ pre e, P (M.run pre) e ↔ Q (M.run pre) e)
    (es : List ε) : M.EveryStep P es ↔ M.EveryStep Q es :=
  forall₃_congr fun pre e _ => h pre e

instance (P : σ → ε → Prop) [∀ s e, Decidable (P s e)] (es : List ε) :
    Decidable (M.EveryStep P es) :=
  decidable_of_iff (∀ i : Fin es.length, P (M.run (es.take i)) es[i]) (by
    constructor
    · intro h pre e hpre
      obtain ⟨rest, rfl⟩ := hpre
      simpa using h ⟨pre.length, by simp⟩
    · intro h i
      refine h _ _ ?_
      rw [Fin.getElem_fin, List.take_concat_get']
      exact List.take_prefix _ es)

theorem trace_eq_nil_iff (es : List ε) :
    M.trace es = [] ↔ M.EveryStep (fun s e => M.emits s e = []) es := by
  induction es using List.reverseRecOn with
  | nil => simp [everyStep_nil]
  | append_singleton es e ih =>
    rw [trace_concat, everyStep_concat, ← ih, List.append_eq_nil_iff]

theorem mem_trace_iff {es : List ε} {o : ω} :
    o ∈ M.trace es ↔ ∃ pre e, pre ++ [e] <+: es ∧ o ∈ M.emits (M.run pre) e := by
  induction es using List.reverseRecOn with
  | nil => simp
  | append_singleton es e ih =>
    rw [trace_concat, List.mem_append, ih]
    constructor
    · intro hh
      rcases hh with ⟨pre, x, hx, ho⟩ | ho
      · exact ⟨pre, x, hx.trans (List.prefix_append es [e]), ho⟩
      · exact ⟨es, e, List.prefix_refl _, ho⟩
    · intro hh
      obtain ⟨pre, x, hx, ho⟩ := hh
      rcases List.prefix_concat_iff.mp hx with hx | hx
      · obtain ⟨rfl, rfl⟩ : pre = es ∧ x = e := by simpa using hx
        exact .inr ho
      · exact .inl ⟨pre, x, hx, ho⟩

/-- The invariant rule, for runs whose event lists satisfy the prefix-closed
condition `Ok`; the invariant may mention the events so far. -/
theorem invariant_of_ok (Ok : List ε → Prop) (hok : ∀ es e, Ok (es ++ [e]) → Ok es)
    (I : List ε → σ → Prop) (h0 : I [] M.init)
    (hs : ∀ es e, Ok (es ++ [e]) → I es (M.run es) → I (es ++ [e]) (M.next (M.run es) e))
    (es : List ε) (h : Ok es) : I es (M.run es) := by
  induction es using List.reverseRecOn with
  | nil => exact h0
  | append_singleton es e ih =>
    rw [run_concat]
    exact hs es e h (ih (hok es e h))

theorem invariant {I : σ → Prop} (h0 : I M.init) (hs : ∀ s e, I s → I (M.next s e))
    (es : List ε) : I (M.run es) :=
  M.invariant_of_ok (fun _ => True) (fun _ _ _ => trivial) (fun _ s => I s) h0
    (fun es e _ => hs (M.run es) e) es trivial

/-- The invariant rule for runs whose steps all satisfy `P`. -/
theorem invariant_of_everyStep {P : σ → ε → Prop} {I : σ → Prop} (h0 : I M.init)
    (hs : ∀ es e, P (M.run es) e → I (M.run es) → I (M.next (M.run es) e)) {es : List ε}
    (h : M.EveryStep P es) : I (M.run es) :=
  M.invariant_of_ok (M.EveryStep P) (fun es e hP => ((M.everyStep_concat P es e).mp hP).1)
    (fun _ s => I s) h0 (fun es e hP => hs es e ((M.everyStep_concat P es e).mp hP).2) es h

/-- The accounting rule: if each step from a state that satisfies the invariant
changes `m` by the credits of what it emits, so does each run. -/
theorem balance {I : σ → Prop} (h0 : I M.init) (hs : ∀ s e, I s → I (M.next s e))
    (m : σ → ℤ) (credit : ω → ℤ)
    (hm : ∀ s e, I s → m (M.next s e) = m s + ((M.emits s e).map credit).sum)
    (es : List ε) : m (M.run es) = m M.init + ((M.trace es).map credit).sum := by
  induction es using List.reverseRecOn with
  | nil => simp
  | append_singleton es e ih =>
    rw [run_concat, trace_concat, hm _ _ (M.invariant h0 hs es), ih]
    simp [add_assoc]

/-- The exactness rule for safety: if from the safe states of a run exactly the
steps with `Q` are right and lead to safe states, the run is right and stays
safe exactly when every step has `Q`. -/
theorem safe_iff {S : σ → Prop} {R Q : σ → ε → Prop} (h0 : S M.init) (es : List ε)
    (hs : ∀ pre e, pre ++ [e] <+: es → S (M.run pre) →
      (R (M.run pre) e ∧ S (M.next (M.run pre) e) ↔ Q (M.run pre) e)) :
    (M.EveryStep R es ∧ ∀ pre, pre <+: es → S (M.run pre)) ↔ M.EveryStep Q es := by
  induction es using List.reverseRecOn with
  | nil => simp [everyStep_nil, h0]
  | append_singleton es e ih =>
    have ih := ih fun pre x hx => hs pre x (hx.trans (List.prefix_append es [e]))
    have hlast := hs es e (List.prefix_refl _)
    rw [everyStep_concat, everyStep_concat]
    constructor
    · intro hh
      obtain ⟨⟨hright, hr⟩, hsafe⟩ := hh
      have hes : ∀ pre, pre <+: es → S (M.run pre) :=
        fun pre hp => hsafe pre (hp.trans (List.prefix_append es [e]))
      have hnext := hsafe (es ++ [e]) (List.prefix_refl _)
      rw [run_concat] at hnext
      exact ⟨ih.mp ⟨hright, hes⟩, (hlast (hes es (List.prefix_refl _))).mp ⟨hr, hnext⟩⟩
    · intro hh
      obtain ⟨hall, hq⟩ := hh
      obtain ⟨hright, hes⟩ := ih.mpr hall
      obtain ⟨hr, hnext⟩ := (hlast (hes es (List.prefix_refl _))).mpr hq
      refine ⟨⟨hright, hr⟩, fun pre hp => ?_⟩
      rcases List.prefix_concat_iff.mp hp with rfl | hp
      · rw [run_concat]
        exact hnext
      · exact hes pre hp

theorem always_iff {S : σ → Prop} {Q : σ → ε → Prop} (h0 : S M.init) (es : List ε)
    (hs : ∀ pre e, pre ++ [e] <+: es → S (M.run pre) →
      (S (M.next (M.run pre) e) ↔ Q (M.run pre) e)) :
    (∀ pre, pre <+: es → S (M.run pre)) ↔ M.EveryStep Q es := by
  have hsafe := M.safe_iff (R := fun _ _ => True) h0 es fun pre e hp hS => by
    rw [true_and]
    exact hs pre e hp hS
  rw [← hsafe]
  exact (and_iff_right fun _ _ _ => trivial).symm

/-- The exactness rule beside an invariant, which holds as long as the run is safe. -/
theorem always_iff_of {I S : σ → Prop} {Q : σ → ε → Prop} (hI : I M.init) (hS : S M.init)
    (es : List ε) (hs : ∀ pre e, pre ++ [e] <+: es → I (M.run pre) → S (M.run pre) →
      (S (M.next (M.run pre) e) ↔ Q (M.run pre) e) ∧
        (S (M.next (M.run pre) e) → I (M.next (M.run pre) e))) :
    (∀ pre, pre <+: es → S (M.run pre)) ↔ M.EveryStep Q es := by
  have hboth := M.always_iff (S := fun s => I s ∧ S s) (Q := Q) ⟨hI, hS⟩ es fun pre e hp h => by
    obtain ⟨hiff, hnext⟩ := hs pre e hp h.1 h.2
    exact ⟨fun hh => hiff.mp hh.2, fun hq => ⟨hnext (hiff.mpr hq), hiff.mpr hq⟩⟩
  rw [← hboth]
  constructor
  · intro hsafe pre hp
    refine ⟨?_, hsafe pre hp⟩
    induction pre using List.reverseRecOn with
    | nil => exact hI
    | append_singleton pre e ih =>
      have hbefore := (List.prefix_append pre [e]).trans hp
      have hsafe' := hsafe (pre ++ [e]) hp
      rw [run_concat] at hsafe' ⊢
      exact (hs pre e hp (ih hbefore) (hsafe pre hbefore)).2 hsafe'
  · intro hh pre hp
    exact (hh pre hp).2

/-- The budget rule: where each step that changes the state takes one unit of
work, a run of such steps is as long as the work it takes. -/
theorem work_add_length (work : σ → ℕ) {es : List ε}
    (hs : ∀ pre e, pre ++ [e] <+: es → M.next (M.run pre) e ≠ M.run pre →
      work (M.next (M.run pre) e) + 1 = work (M.run pre))
    (hchanges : M.EveryStep (fun s e => M.next s e ≠ s) es) :
    work (M.run es) + es.length = work M.init := by
  induction es using List.reverseRecOn with
  | nil => rfl
  | append_singleton es e ih =>
    obtain ⟨hes, hlast⟩ := (M.everyStep_concat _ es e).mp hchanges
    have hbefore := ih (fun pre x hx => hs pre x (hx.trans (List.prefix_append es [e]))) hes
    have hstep := hs es e (List.prefix_refl _) hlast
    rw [run_concat, List.length_append, List.length_singleton]
    omega

end Machine
end HeadsUp.Lib
