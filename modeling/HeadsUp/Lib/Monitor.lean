import HeadsUp.Lib.Machine

/-!
# Monitors

A monitor listens to the outputs of a machine and stops at one it does not
expect. Every run of the machine is expected when each of its steps keeps the
states of the two related.
-/

namespace HeadsUp.Lib

structure Monitor (θ ω : Type*) where
  init : θ
  hear : θ → ω → Option θ

namespace Monitor
variable {σ ε θ ω : Type*} (m : Monitor θ ω)

def hearAll (t : θ) (outs : List ω) : Option θ := outs.foldlM m.hear t

@[simp] theorem hearAll_nil (t : θ) : m.hearAll t [] = some t := rfl

@[simp] theorem hearAll_cons (t : θ) (o : ω) (outs : List ω) :
    m.hearAll t (o :: outs) = (m.hear t o).bind fun t' => m.hearAll t' outs := List.foldlM_cons

theorem hearAll_append (t : θ) (outs outs' : List ω) :
    m.hearAll t (outs ++ outs') = (m.hearAll t outs).bind fun t' => m.hearAll t' outs' :=
  List.foldlM_append

variable {m}

theorem hearAll_append_of {t t' : θ} {outs : List ω} (h : m.hearAll t outs = some t')
    (outs' : List ω) : m.hearAll t (outs ++ outs') = m.hearAll t' outs' := by
  rw [hearAll_append, h, Option.bind_some]

theorem hearAll_ignored {t : θ} {outs : List ω} (h : ∀ o ∈ outs, m.hear t o = some t) :
    m.hearAll t outs = some t := by
  induction outs with
  | nil => rfl
  | cons o outs ih =>
    rw [hearAll_cons, h o (by simp), Option.bind_some]
    exact ih fun x hx => h x (by simp [hx])

/-- Only the first of them moves the monitor. -/
theorem hearAll_repeated {t t' : θ} {outs : List ω} (hfirst : ∀ o ∈ outs, m.hear t o = some t')
    (hrest : ∀ o ∈ outs, m.hear t' o = some t') :
    m.hearAll t outs = some (if outs = [] then t else t') := by
  cases outs with
  | nil => rfl
  | cons o outs =>
    rw [hearAll_cons, hfirst o (by simp), Option.bind_some]
    exact hearAll_ignored fun x hx => hrest x (by simp [hx])

/-- A monitor that remembers whom it has heard hears everybody once. -/
theorem hearAll_once {κ : Type*} {out : κ → ω} {state : List κ → θ}
    (hhears : ∀ k told, k ∉ told → m.hear (state told) (out k) = some (state (k :: told)))
    {keys told : List κ} (hnodup : keys.Nodup) (hnew : ∀ k ∈ keys, k ∉ told) :
    m.hearAll (state told) (keys.map out) = some (state (keys.reverse ++ told)) := by
  induction keys generalizing told with
  | nil => rfl
  | cons k keys ih =>
    obtain ⟨hk, hnodup⟩ := List.nodup_cons.mp hnodup
    rw [List.map_cons, hearAll_cons, hhears k told (hnew k (by simp)), Option.bind_some, ih hnodup]
    · simp
    · intro x hx hmem
      rcases List.mem_cons.mp hmem with rfl | hmem
      · exact hk hx
      · exact hnew x (by simp [hx]) hmem

/-- The rule for runs whose event lists satisfy the prefix-closed condition `Ok`. -/
theorem hears_run_of_ok (M : Machine σ ε ω) {R : σ → θ → Prop} (Ok : List ε → Prop)
    (hok : ∀ es e, Ok (es ++ [e]) → Ok es) (hinit : R M.init m.init)
    (hstep : ∀ es t e, Ok (es ++ [e]) → R (M.run es) t →
      ∃ t', m.hearAll t (M.emits (M.run es) e) = some t' ∧ R (M.next (M.run es) e) t')
    (es : List ε) (h : Ok es) :
    ∃ t, m.hearAll m.init (M.trace es) = some t ∧ R (M.run es) t := by
  induction es using List.reverseRecOn with
  | nil => exact ⟨m.init, rfl, hinit⟩
  | append_singleton es e ih =>
    obtain ⟨t, ht, hr⟩ := ih (hok es e h)
    obtain ⟨t', ht', hr'⟩ := hstep es t e h hr
    refine ⟨t', ?_, ?_⟩
    · rw [Machine.trace_concat, hearAll_append_of ht, ht']
    · rw [Machine.run_concat]
      exact hr'

end Monitor
end HeadsUp.Lib
