import HeadsUp.Lib.Machine

/-!
# Forward simulation

A concrete machine simulates an abstract one along a relation when each of its
steps is matched by at most one step of the abstract one. What holds in every
state of the abstract machine then holds in every state of the concrete one, as
far as the relation carries it over.
-/

namespace HeadsUp.Lib.Machine

variable {σ τ ε δ ω ω' : Type*} (C : Machine σ ε ω) (A : Machine τ δ ω')

structure Simulates (R : σ → τ → Prop) : Prop where
  init : R C.init A.init
  step : ∀ s t e, R s t → R (C.next s e) t ∨ ∃ d, R (C.next s e) (A.next t d)

variable {C A}

theorem Simulates.run {R : σ → τ → Prop} (h : C.Simulates A R) (es : List ε) :
    ∃ ds : List δ, ds.length ≤ es.length ∧ R (C.run es) (A.run ds) := by
  induction es using List.reverseRecOn with
  | nil => exact ⟨[], le_refl _, h.init⟩
  | append_singleton es e ih =>
    obtain ⟨ds, hlen, hr⟩ := ih
    rw [List.length_append, List.length_singleton, run_concat]
    rcases h.step _ _ e hr with hstay | ⟨d, hmove⟩
    · exact ⟨ds, by omega, hstay⟩
    · refine ⟨ds ++ [d], ?_, ?_⟩
      · rw [List.length_append, List.length_singleton]
        omega
      · rw [run_concat]
        exact hmove

theorem Simulates.transfer {R : σ → τ → Prop} (h : C.Simulates A R) {P : τ → Prop} {Q : σ → Prop}
    (hruns : ∀ ds, P (A.run ds)) (hcarries : ∀ s t, R s t → P t → Q s) (es : List ε) :
    Q (C.run es) := by
  obtain ⟨ds, -, hr⟩ := h.run es
  exact hcarries _ _ hr (hruns ds)

/-! ### Labelled steps -/

section Labels
variable (C A) (label : σ → ε → Option δ)

/-- What the steps of a run ask of the abstract machine. -/
def labelsFrom (s : σ) : List ε → List δ
  | [] => []
  | e :: es => (label s e).toList ++ labelsFrom (C.next s e) es

def labels (es : List ε) : List δ := C.labelsFrom label C.init es

theorem labelsFrom_concat (s : σ) (es : List ε) (e : ε) : C.labelsFrom label s (es ++ [e])
    = C.labelsFrom label s es ++ (label (es.foldl C.next s) e).toList := by
  induction es generalizing s with
  | nil => simp [labelsFrom]
  | cons x xs ih => simp [labelsFrom, ih]

@[simp] theorem labels_nil : C.labels label [] = [] := rfl

@[simp] theorem labels_concat (es : List ε) (e : ε) :
    C.labels label (es ++ [e]) = C.labels label es ++ (label (C.run es) e).toList :=
  C.labelsFrom_concat label C.init es e

/-- If each step changes the image of the state as its label does, the image of a
run is the run of its labels. -/
theorem abs_run {abs : σ → τ} (h0 : abs C.init = A.init)
    (hs : ∀ es e, abs (C.next (C.run es) e)
      = (label (C.run es) e).elim (abs (C.run es)) (A.next (abs (C.run es)))) (es : List ε) :
    abs (C.run es) = A.run (C.labels label es) := by
  induction es using List.reverseRecOn with
  | nil => exact h0
  | append_singleton es e ih =>
    rw [run_concat, hs, labels_concat, ih]
    cases label (C.run es) e with
    | none => rw [Option.toList_none, List.append_nil, Option.elim_none]
    | some d => rw [Option.toList_some, run_concat, Option.elim_some]

end Labels

end HeadsUp.Lib.Machine
