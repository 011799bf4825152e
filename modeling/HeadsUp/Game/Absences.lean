import HeadsUp.Game.Refinement

/-!
# Being away

A player who is away or sits out may not move, and that is all it costs him: his
chair, his chips and the hand go on as if everybody had been there all the time.
-/

namespace HeadsUp.Game
open HeadsUp.Core HeadsUp.Common HeadsUp.Lib HeadsUp.Server HeadsUp.Server.GameSession

/-! ### Everybody present -/

namespace Chair

theorem back_topUp (c : Chair) : c.topUp.back = c.back.topUp := by
  unfold topUp
  by_cases hless : c.stack < topUpThreshold
  · rw [if_pos hless, if_pos (show c.back.stack < topUpThreshold from hless)]
    rfl
  · rw [if_neg hless, if_neg (show ¬c.back.stack < topUpThreshold from hless)]

theorem back_of_present {c : Chair} (hconnected : c.connected = true)
    (hsits : c.sittingOut = false) : c.back = c := by
  rw [back, ← hconnected, ← hsits]

end Chair

namespace Play

def gather (g : Play) : Play := g.change Chair.back

def Present (g : Play) (id : String) : Prop :=
  ∀ c ∈ g.chairs, c.id = id → c.connected = true ∧ c.sittingOut = false

instance (g : Play) (id : String) : Decidable (g.Present id) :=
  inferInstanceAs (Decidable (∀ c ∈ g.chairs, _))

/-- What is left to ask for where nobody comes or goes: a move is asked for by
a player who is there. -/
def admits (g : Play) : Ask → Bool
  | .acts id _ _ _ => g.Present id
  | .leaves _ => false
  | .returns _ => false
  | .sitsOut _ => false
  | .sits _ _ => true
  | .tops _ => true

variable {g : Play} {f : Chair → Chair}

theorem chairs_change (g : Play) (f : Chair → Chair) : (g.change f).chairs = g.chairs.map f := by
  simp [chairs, change, Option.toList_map]

theorem change_change (g : Play) (f f' : Chair → Chair) :
    (g.change f).change f' = g.change fun c => f' (f c) := by
  simp only [change, Option.map_map, Function.comp_def]

theorem gather_change (g : Play) (hf : ∀ c, (f c).back = f c.back) :
    (g.change f).gather = g.gather.change f := by
  rw [gather, gather, change_change, change_change]
  exact congrArg g.change (funext hf)

theorem gather_changeOne (g : Play) (id : String) (hf : ∀ c, (f c).back = f c.back) :
    (g.changeOne id f).gather = g.gather.changeOne id f := by
  refine gather_change g fun c => ?_
  by_cases hid : c.id = id
  · rw [if_pos hid, if_pos (show c.back.id = id from hid)]
    exact hf c
  · rw [if_neg hid, if_neg (show ¬c.back.id = id from hid)]

/-- Coming and going is not seen. -/
theorem gather_presence (g : Play) (id : String) (hf : ∀ c, (f c).back = c.back) :
    (g.changeOne id f).gather = g.gather := by
  rw [gather, changeOne, change_change]
  refine congrArg g.change (funext fun c => ?_)
  by_cases hid : c.id = id
  · rw [if_pos hid]
    exact hf c
  · rw [if_neg hid]

theorem mem_chairs_gather {P : Chair → Prop} :
    (∃ c ∈ g.gather.chairs, P c) ↔ ∃ c ∈ g.chairs, P c.back := by
  rw [gather, chairs_change]
  simp only [List.mem_map, exists_exists_and_eq_and]

theorem gather_start (g : Play) (uuid : String) : (g.start uuid).gather = g.gather.start uuid := by
  obtain ⟨first, second, deal⟩ := g
  cases first <;> cases second <;> rfl

theorem gather_sit (g : Play) (id uuid : String) :
    (g.sit id uuid).gather = g.gather.sit id uuid := by
  have hseated : (∃ c ∈ g.gather.chairs, c.id = id) ↔ ∃ c ∈ g.chairs, c.id = id :=
    mem_chairs_gather
  rw [sit, sit]
  by_cases htaken : ∃ c ∈ g.chairs, c.id = id
  · rw [if_pos htaken, if_pos (hseated.mpr htaken)]
  · rw [if_neg htaken, if_neg (hseated.not.mpr htaken)]
    obtain ⟨first, second, deal⟩ := g
    cases first with
    | none => exact gather_start _ uuid
    | some p =>
      cases second with
      | none => exact gather_start _ uuid
      | some q => rfl

theorem otherThan_gather (g : Play) (id : String) : g.gather.otherThan id = g.otherThan id := by
  rw [otherThan, otherThan, gather, chairs_change, List.find?_map, Option.map_map]
  rfl

theorem gather_fold (g : Play) (deal : Deal) : (g.fold deal).gather = g.gather.fold deal := by
  have hchange := gather_change (f := fun c => (if c.id = deal.turn then c else c.win deal.pot).topUp) g
    fun c => by
      rw [Chair.back_topUp]
      by_cases hid : c.id = deal.turn
      · rw [if_pos hid, if_pos (show c.back.id = deal.turn from hid)]
      · rw [if_neg hid, if_neg (show ¬c.back.id = deal.turn from hid)]
        rfl
  exact congrArg (fun played : Play => { played with deal := none }) hchange

theorem gather_bet (g : Play) (deal : Deal) (action : String) (amount : ℤ) :
    (g.bet deal action amount).gather = g.gather.bet deal action amount := by
  have hchange := gather_changeOne (f := fun c => c.pay amount) g deal.turn fun c => rfl
  rw [bet, bet, otherThan_gather, ← hchange]
  rfl

/-- Of a player who is there the rules ask the same as of everybody. -/
theorem allows_gather {id : String} (hpresent : g.Present id) (deal : Deal) (action : String)
    (amount : ℤ) : (∃ c ∈ g.gather.chairs, c.id = id ∧ c.Allows deal action amount) ↔
      ∃ c ∈ g.chairs, c.id = id ∧ c.Allows deal action amount := by
  rw [mem_chairs_gather]
  refine exists_congr fun c => and_congr_right fun hc => and_congr_right fun hid => ?_
  obtain ⟨hconnected, hsits⟩ := hpresent c hc hid
  rw [Chair.back_of_present hconnected hsits]

theorem gather_act {id : String} (hpresent : g.Present id) (handId action : String) (amount : ℤ) :
    (g.act id handId action amount).gather = g.gather.act id handId action amount := by
  cases hdeal : g.deal with
  | none =>
    have hdeal' : g.gather.deal = none := hdeal
    simp only [act, hdeal, hdeal']
  | some deal =>
    have hdeal' : g.gather.deal = some deal := hdeal
    have hallows := allows_gather hpresent deal action amount
    rw [act_eq hdeal, act_eq hdeal']
    by_cases hmoves : deal.id = handId ∧ deal.turn = id ∧
        ∃ c ∈ g.chairs, c.id = id ∧ c.Allows deal action amount
    · have hmoves' : deal.id = handId ∧ deal.turn = id ∧
          ∃ c ∈ g.gather.chairs, c.id = id ∧ c.Allows deal action amount :=
        ⟨hmoves.1, hmoves.2.1, hallows.mpr hmoves.2.2⟩
      rw [if_pos hmoves, if_pos hmoves']
      by_cases hfold : action = "fold"
      · rw [if_pos hfold, if_pos hfold]
        exact gather_fold g deal
      · rw [if_neg hfold, if_neg hfold]
        exact gather_bet g deal action amount
    · rw [if_neg hmoves, if_neg fun hh => hmoves ⟨hh.1, hh.2.1, hallows.mp hh.2.2⟩]

/-- Who is away moves nothing. -/
theorem act_absent {id : String} (hids : ∀ c ∈ g.chairs, ∀ d ∈ g.chairs, c.id = d.id → c = d)
    (habsent : ¬g.Present id) (handId action : String) (amount : ℤ) :
    g.act id handId action amount = g := by
  cases hdeal : g.deal with
  | none => simp only [act, hdeal]
  | some deal =>
    rw [act_eq hdeal, if_neg]
    rintro ⟨-, -, c, hc, hid, hconnected, hsits, -⟩
    refine habsent fun d hd hid' => ?_
    rw [hids d hd c hc (hid'.trans hid.symm)]
    exact ⟨hconnected, hsits⟩

theorem gather_next (hids : ∀ c ∈ g.chairs, ∀ d ∈ g.chairs, c.id = d.id → c = d) (a : Ask) :
    (g.next a).gather = if g.admits a then g.gather.next a else g.gather := by
  cases a with
  | sits id uuid => exact gather_sit g id uuid
  | acts id handId action amount =>
    by_cases hpresent : g.Present id
    · rw [if_pos (show g.admits (.acts id handId action amount) = true from decide_eq_true hpresent)]
      exact gather_act hpresent handId action amount
    · rw [if_neg (show ¬g.admits (.acts id handId action amount) = true from
        fun hh => hpresent (of_decide_eq_true hh)), next, act_absent hids hpresent]
  | tops id => exact gather_changeOne g id Chair.back_topUp
  | leaves id => exact gather_presence g id fun c => rfl
  | returns id => exact gather_presence g id fun c => rfl
  | sitsOut id => exact gather_presence g id fun c => rfl

end Play

/-! ### The server -/

/-- What an event asks for, comings and goings and the moves of absent players
struck out. -/
def presentAsk (s : GameSession) (e : Event) : Option Ask :=
  (askOf s e).filter (playOf s).admits

/-- The table with everybody present. -/
def gathered (s : GameSession) : Play := (playOf s).gather

theorem playOf_ids {s : GameSession} (h : TableInv Unfolded s.tableManager s.nextRef) :
    ∀ c ∈ (playOf s).chairs, ∀ d ∈ (playOf s).chairs, c.id = d.id → c = d := by
  intro c hc d hd hid
  obtain ⟨p, hp, rfl⟩ := (mem_chairs h).mp hc
  obtain ⟨q, hq, rfl⟩ := (mem_chairs h).mp hd
  rw [(id_eq_iff h (h.getPlayer hq) hp).mp hid]

theorem step_gathers {s : GameSession} (h : TableInv Unfolded s.tableManager s.nextRef)
    (horder : SeatOrder s.tableManager.table) (e : Event) :
    gathered (s.step e).1 = (presentAsk s e).elim (gathered s) (gathered s).next := by
  rw [gathered, gathered, step_plays h horder, presentAsk]
  cases askOf s e with
  | none => rfl
  | some a =>
    rw [Option.elim_some, Play.gather_next (playOf_ids h), Option.filter_some]
    cases (playOf s).admits a <;> rfl

/-- Being away costs a player his moves and nothing else. -/
theorem absence_costs_moves (config : Config) (es : List Event) :
    gathered ((machine config).run es) = rules.run ((machine config).labels presentAsk es) :=
  (machine config).abs_run rules presentAsk rfl
    (fun es e => step_gathers (run_inv config es) (run_seatOrder config es) e) es

end HeadsUp.Game
