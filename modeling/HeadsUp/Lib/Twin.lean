import HeadsUp.Lib.Machine

/-!
# Two runs side by side

A property of two runs of a machine is a property of one run of the machine
taken twice, with an event for each copy.
-/

namespace HeadsUp.Lib
namespace Machine

variable {σ ε ω : Type*} (M : Machine σ ε ω)

/-- Its output is what the two copies emit in a step. -/
def twin : Machine (σ × σ) (ε × ε) (List ω × List ω) where
  init := (M.init, M.init)
  step s e := ((M.next s.1 e.1, M.next s.2 e.2), [(M.emits s.1 e.1, M.emits s.2 e.2)])

theorem twin_next (s : σ × σ) (e : ε × ε) :
    M.twin.next s e = (M.next s.1 e.1, M.next s.2 e.2) := rfl

theorem run_twin (es : List (ε × ε)) :
    M.twin.run es = (M.run (es.map Prod.fst), M.run (es.map Prod.snd)) := by
  induction es using List.reverseRecOn with
  | nil => rfl
  | append_singleton es e ih =>
    simp only [run_concat, ih, twin_next, List.map_append, List.map_singleton]

/-- The simulation rule: what related steps of any two runs keep holds of any
two runs of related events. -/
theorem twin_relates {R : σ → σ → Prop} {A : ε → ε → Prop} (h0 : R M.init M.init)
    (hs : ∀ es es' e e', A e e' → R (M.run es) (M.run es') →
      R (M.next (M.run es) e) (M.next (M.run es') e'))
    (es : List (ε × ε)) (hA : ∀ e ∈ es, A e.1 e.2) :
    R (M.run (es.map Prod.fst)) (M.run (es.map Prod.snd)) := by
  induction es using List.reverseRecOn with
  | nil => exact h0
  | append_singleton es e ih =>
    simp only [List.map_append, List.map_singleton, run_concat]
    exact hs _ _ _ _ (hA e (by simp)) (ih fun x hx => hA x (by simp [hx]))

/-- `P` holds of each step up to the first one with `Q`, and of that. -/
def EveryStepUntil (P Q : σ → ε → Prop) (es : List ε) : Prop :=
  ∀ pre e, pre ++ [e] <+: es → M.EveryStep (fun s x => ¬Q s x) pre → P (M.run pre) e

/-- When `P` is right in exactly the steps with `R`, and it can go wrong only
before `Q`, then `P` holds until `Q` exactly when every step has `R`. -/
theorem everyStepUntil_iff {P Q R : σ → ε → Prop} (es : List ε)
    (hP : ∀ pre e, pre ++ [e] <+: es → (P (M.run pre) e ↔ R (M.run pre) e))
    (hQ : ∀ pre e, pre ++ [e] <+: es → ¬R (M.run pre) e → M.EveryStep (fun s x => ¬Q s x) pre) :
    M.EveryStepUntil P Q es ↔ M.EveryStep R es := by
  constructor
  · intro huntil pre e hpre
    by_contra hno
    exact hno ((hP pre e hpre).mp (huntil pre e hpre (hQ pre e hpre hno)))
  · intro hall pre e hpre _
    exact (hP pre e hpre).mpr (hall pre e hpre)

end Machine
end HeadsUp.Lib
