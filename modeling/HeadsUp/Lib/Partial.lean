import HeadsUp.Lib.Machine

/-!
# Steps that may be undefined

A run with an undefined step is undefined from there on. A machine whose states
have to be of some kind is one of such steps: as long as they are, its runs are
those of the machine without the restriction.
-/

namespace HeadsUp.Lib

namespace Machine
variable {σ ε ω : Type*}

def ofPartial (init : σ) (step : σ → ε → Option σ) : Machine (Option σ) ε Empty where
  init := some init
  step s e := (s.bind (step · e), [])

/-- `P` of a step from a state that is defined. -/
def WhenDefined (P : σ → ε → Prop) (s : Option σ) (e : ε) : Prop := ∀ t ∈ s, P t e

instance (P : σ → ε → Prop) [∀ t e, Decidable (P t e)] (s : Option σ) (e : ε) :
    Decidable (WhenDefined P s e) := inferInstanceAs (Decidable (∀ t ∈ s, P t e))

section Partial
variable {init : σ} {step : σ → ε → Option σ}

theorem run_ofPartial_concat (es : List ε) (e : ε) :
    (ofPartial init step).run (es ++ [e]) = ((ofPartial init step).run es).bind (step · e) :=
  (ofPartial init step).run_concat es e

theorem run_ofPartial_eq_some_iff {es : List ε} {e : ε} {s : σ} :
    (ofPartial init step).run (es ++ [e]) = some s ↔
      ∃ t, (ofPartial init step).run es = some t ∧ step t e = some s := by
  rw [run_ofPartial_concat, Option.bind_eq_some_iff]

/-- What is defined in the end has been defined all along. -/
theorem run_ofPartial_isSome {es pre : List ε} (hpre : pre <+: es)
    (h : ((ofPartial init step).run es).isSome = true) :
    ((ofPartial init step).run pre).isSome = true := by
  induction es using List.reverseRecOn with
  | nil => rwa [List.prefix_nil.mp hpre]
  | append_singleton es e ih =>
    rcases List.prefix_concat_iff.mp hpre with rfl | hpre
    · exact h
    · obtain ⟨s, hs⟩ := Option.isSome_iff_exists.mp h
      obtain ⟨t, ht, -⟩ := run_ofPartial_eq_some_iff.mp hs
      exact ih hpre (by rw [ht]; rfl)

end Partial

section Within
variable (M : Machine σ ε ω) (fits : σ → Prop)

/-- The machine that is undefined where a step leads out of the states that fit. -/
def within [DecidablePred fits] : Machine (Option σ) ε Empty :=
  ofPartial M.init fun s e => if fits (M.next s e) then some (M.next s e) else none

/-- The run stays within `fits`. -/
def Within (es : List ε) : Prop := M.EveryStep (fun s e => fits (M.next s e)) es

variable {fits}

theorem within_concat (es : List ε) (e : ε) :
    M.Within fits (es ++ [e]) ↔ M.Within fits es ∧ fits (M.run (es ++ [e])) := by
  rw [run_concat]
  exact M.everyStep_concat _ es e

theorem within_of_prefixes {es : List ε} (h : ∀ pre, pre <+: es → fits (M.run pre)) :
    M.Within fits es := by
  intro pre e hpre
  rw [← run_concat]
  exact h _ hpre

variable [DecidablePred fits]

theorem run_within_iff {es : List ε} {s : σ} :
    (M.within fits).run es = some s ↔ M.run es = s ∧ M.Within fits es := by
  induction es using List.reverseRecOn generalizing s with
  | nil =>
    rw [and_iff_left (show M.Within fits [] from M.everyStep_nil _)]
    exact Option.some_inj
  | append_singleton es e ih =>
    rw [within_concat, run_concat M, within, run_ofPartial_eq_some_iff]
    constructor
    · intro hh
      obtain ⟨t, ht, hstep⟩ := hh
      obtain ⟨rfl, hes⟩ := ih.mp ht
      split_ifs at hstep with hfits
      exact ⟨Option.some.inj hstep, hes, hfits⟩
    · intro hh
      obtain ⟨rfl, hes, hfits⟩ := hh
      exact ⟨M.run es, ih.mpr ⟨rfl, hes⟩, if_pos hfits⟩

/-- A restricted run is defined and as it should be throughout exactly when the
unrestricted one fits and is. -/
theorem always_within_iff {P : σ → Prop} (h0 : fits M.init) (es : List ε) :
    (∀ pre, pre <+: es → ∃ s, (M.within fits).run pre = some s ∧ P s) ↔
      ∀ pre, pre <+: es → fits (M.run pre) ∧ P (M.run pre) := by
  constructor
  · intro h pre hpre
    obtain ⟨s, hs, hP⟩ := h pre hpre
    obtain ⟨rfl, hwithin⟩ := M.run_within_iff.mp hs
    refine ⟨?_, hP⟩
    rcases List.eq_nil_or_concat pre with rfl | ⟨before, e, rfl⟩
    · exact h0
    · rw [List.concat_eq_append] at hwithin ⊢
      exact ((M.within_concat before e).mp hwithin).2
  · intro h pre hpre
    have hwithin : M.Within fits pre :=
      M.within_of_prefixes fun earlier hearlier => (h earlier (hearlier.trans hpre)).1
    exact ⟨M.run pre, M.run_within_iff.mpr ⟨rfl, hwithin⟩, (h pre hpre).2⟩

end Within
end Machine
end HeadsUp.Lib
