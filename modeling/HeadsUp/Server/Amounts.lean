import HeadsUp.Server.Betting
import HeadsUp.Server.Errors

/-!
# Amounts of action messages

`get<int>()` converts the amount before anything is checked, so that a number
outside the range of `int`, a fraction or a boolean can come back as an amount
the table accepts.
-/

namespace HeadsUp.Common

/-- The value of an integer, of either sign. -/
def Json.integer : Json → Option ℤ
  | .numberInteger n => some n.toInt
  | .numberUnsigned n => some n.toNat
  | _ => none

/-- An integer in the range of `int` is converted to itself. -/
theorem Json.getInt_of_integer {j : Json} {n : ℤ} (h : j.integer = some n) (hlo : -2 ^ 31 ≤ n)
    (hhi : n < 2 ^ 31) (undef : Int32) : j.getInt undef = .ok n := by
  have hbmod : n.bmod (2 ^ 32) = n := Int.bmod_eq_of_le (by omega) (by omega)
  cases j with
  | numberInteger m =>
    obtain rfl := Option.some.inj h
    rw [getInt, Int64.toInt_toInt32, hbmod]
  | numberUnsigned m =>
    obtain rfl := Option.some.inj h
    have hsmall : (m.toNat : ℤ).bmod (2 ^ 32) = m.toNat := hbmod
    have hword : m.toUInt32.toNat = m.toNat := by
      rw [UInt64.toNat_toUInt32]
      omega
    rw [getInt]
    refine congrArg Except.ok ?_
    rw [← Int32.toInt_toBitVec, UInt32.toBitVec_toInt32, BitVec.toInt_eq_toNat_bmod,
      UInt32.toNat_toBitVec, hword]
    exact hsmall
  | _ => cases h

end HeadsUp.Common

namespace HeadsUp.Server
open HeadsUp.Core HeadsUp.Common HeadsUp.Lib

namespace GameSession
variable {s : GameSession}

/-! ### Acceptance -/

/-- The handler takes the action: the actor and the table it leaves before the
hand may end. -/
def Accepts (s : GameSession) (payload : Json) (session : SessionId) (c : Choices)
    (player : PlayerRef) (tm : TableManager) : Prop :=
  ∃ handId action amount playerId hand, actionFields payload c = .ok (handId, action, amount) ∧
    s.sessionToPlayer.lookup session = some playerId ∧ s.hand = some hand ∧ hand.id = handId ∧
    s.tableManager.getPlayer playerId = some player ∧
    s.tableManager.processPlayerAction playerId action amount c.now = (true, tm)

theorem stop_hasError (s : GameSession) (session : SessionId) (e : Stop) :
    ¬NoErrors (caught (s.stop session e) session).2 := by
  obtain ⟨code, message, heq⟩ := caught_stop s session e
  rw [heq]
  intro hclean
  have hno := hclean (.send session (.error code message)) (by simp)
  cases hno

theorem reject_hasError (s : GameSession) (session : SessionId) (code message : String) :
    ¬NoErrors (caught (s.reject session code message) session).2 :=
  stop_hasError s session (.reply code message)

/-- What follows an accepted action runs to its end. -/
theorem handleAction_accepted (h : TableInv Unfolded s.tableManager s.nextRef) {payload : Json}
    {session : SessionId} {c : Choices} {handId action playerId : String} {amount : ℤ} {hand : Hand}
    {tm : TableManager} (hfields : actionFields payload c = .ok (handId, action, amount))
    (hsession : s.sessionToPlayer.lookup session = some playerId) (hhand : s.hand = some hand)
    (hid : hand.id = handId)
    (hyes : s.tableManager.processPlayerAction playerId action amount c.now = (true, tm)) :
    let s' : GameSession := { s with tableManager := tm }
    let outcome := s'.afterAction c (s'.broadcastActionApplied c playerId action amount)
    caught (s.handleAction payload session c) session = (outcome.state, outcome.effects) ∧
      NoErrors outcome.effects := by
  intro s' outcome
  have hcurrent : s.tableManager.table.currentHand = some hand := hhand
  have hinv := (h.processPlayerAction (by rw [hyes])).1
  rw [hyes] at hinv
  obtain ⟨state, effects, hclean, hrun⟩ := afterAction_runs (s := s') hinv c
    (broadcastActionApplied_noErrors s' c playerId action amount)
  have hout : outcome = ⟨state, effects, none⟩ := hrun
  have hsame : s.handleAction payload session c = outcome := by
    simp only [handleAction, hfields, performAction, hsession, hcurrent, hid, hyes, ne_eq,
      not_true_eq_false, if_false, Bool.not_true, Bool.false_eq_true]
    rfl
  rw [hsame, hout]
  exact ⟨rfl, hclean⟩

/-- An action message is accepted or answered with an error. -/
theorem noErrors_iff_accepts (h : TableInv Unfolded s.tableManager s.nextRef) (payload : Json)
    (session : SessionId) (c : Choices) :
    NoErrors (caught (s.handleAction payload session c) session).2 ↔
      ∃ player tm, s.Accepts payload session c player tm := by
  constructor
  · intro hclean
    unfold handleAction at hclean
    cases hfields : actionFields payload c with
    | error e =>
      rw [hfields] at hclean
      exact absurd hclean (stop_hasError s session e)
    | ok fields =>
      obtain ⟨handId, action, amount⟩ := fields
      simp only [hfields, performAction] at hclean
      cases hsession : s.sessionToPlayer.lookup session with
      | none =>
        rw [hsession] at hclean
        exact absurd hclean (reject_hasError s session _ _)
      | some playerId =>
        cases hhand : s.tableManager.table.currentHand with
        | none =>
          simp only [hsession, hhand] at hclean
          exact absurd hclean (reject_hasError s session _ _)
        | some hand =>
          simp only [hsession, hhand] at hclean
          by_cases hid : hand.id = handId
          swap
          · rw [if_pos hid] at hclean
            exact absurd hclean (reject_hasError s session _ _)
          rw [if_neg (not_not.mpr hid)] at hclean
          rcases processPlayerAction_cases s.tableManager playerId action amount c.now with
            hno | ⟨_, player, _, _, -, hget, -, hyes⟩
          · rw [hno] at hclean
            exact absurd hclean (reject_hasError s session _ _)
          · exact ⟨player, _, handId, action, amount, playerId, hand, hfields, hsession, hhand, hid,
              hget, hyes⟩
  · intro hh
    obtain ⟨_, _, _, _, _, _, _, hfields, hsession, hhand, hid, -, hyes⟩ := hh
    obtain ⟨heq, hclean⟩ := handleAction_accepted h hfields hsession hhand hid hyes
    rw [heq]
    exact hclean

/-! ### What is asked for -/

/-- The amount is an integer in the range of `int`. -/
def AmountIs (payload : Json) (n : ℤ) : Prop :=
  ∃ j, payload.get "amount" = .ok j ∧ j.integer = some n ∧ -2 ^ 31 ≤ n ∧ n < 2 ^ 31

/-- An action message that is not answered with an error moves the chips its
amount says. -/
def ChipsAsAsked (s : GameSession) (e : Event) : Prop :=
  ∀ session json c payload, e = .message session (some json) c →
    payloadOf json "action" = some payload → NoErrors (s.step e).2 →
      ∃ n player tm, AmountIs payload n ∧ s.Accepts payload session c player tm ∧
        (tm.heap player).stack = (s.tableManager.heap player).stack - n ∧
        currentPot tm = currentPot s.tableManager + n

/-- The amount is no such integer, and what it is converted to is valid. -/
def ConvertsAmount (s : GameSession) (e : Event) : Prop :=
  ∃ session json c payload handId action amount playerId hand player,
    e = .message session (some json) c ∧ payloadOf json "action" = some payload ∧
      (∀ n, ¬AmountIs payload n) ∧ actionFields payload c = .ok (handId, action, amount) ∧
      s.sessionToPlayer.lookup session = some playerId ∧ s.hand = some hand ∧ hand.id = handId ∧
      s.tableManager.getPlayer playerId = some player ∧
      PlayerAction.validateAction s.tableManager.heap hand player action amount = true

theorem step_action {json payload : Json} (hpayload : payloadOf json "action" = some payload)
    (session : SessionId) (c : Choices) : s.step (.message session (some json) c)
      = caught (s.handleAction payload session c) session := by
  simp only [step, handleMessage, dispatch_of_payload hpayload, if_true, String.reduceEq, if_false]

theorem ok_of_bind {ε α β : Type} {x : Except ε α} {f : α → Except ε β} {b : β}
    (h : (x >>= f) = .ok b) : ∃ a, x = .ok a ∧ f a = .ok b := by
  cases x with
  | error e => cases h
  | ok a => exact ⟨a, rfl, h⟩

theorem ok_of_mapError {ε ε' α : Type} {x : Except ε α} {f : ε → ε'} {a : α}
    (h : x.mapError f = .ok a) : x = .ok a := by
  cases x with
  | error e => cases h
  | ok b => exact congrArg Except.ok (Except.ok.inj h)

theorem actionFields_reads {payload : Json} {c : Choices} {handId action : String} {amount : ℤ}
    (h : actionFields payload c = .ok (handId, action, amount)) :
    readString payload "hand_id" = .ok handId ∧
      readInt c.undefInt payload "amount" = .ok amount := by
  unfold actionFields at h
  split_ifs at h
  obtain ⟨handId', hhand, h⟩ := ok_of_bind h
  obtain ⟨action', -, h⟩ := ok_of_bind h
  obtain ⟨amount', hamount, h⟩ := ok_of_bind h
  split_ifs at h
  cases h
  exact ⟨hhand, hamount⟩

theorem actionFields_amount {payload : Json} {c : Choices} {handId action : String} {amount : ℤ}
    (h : actionFields payload c = .ok (handId, action, amount)) :
    ∃ j, payload.get "amount" = .ok j ∧ j.getInt c.undefInt = .ok amount := by
  obtain ⟨-, hread⟩ := actionFields_reads h
  exact ok_of_bind (ok_of_mapError hread)

theorem chipsAsAsked_iff (h : TableInv Unfolded s.tableManager s.nextRef) (e : Event) :
    ChipsAsAsked s e ↔ ¬ConvertsAmount s e := by
  constructor
  · intro hasked hh
    obtain ⟨session, json, c, payload, handId, action, amount, playerId, hand, player, rfl,
      hpayload, hnot, hfields, hsession, hhand, hid, hget, hvalid⟩ := hh
    obtain ⟨heap, hand', -, hyes⟩ := accepted_of_valid hhand hget hvalid c.now
    have haccepts : s.Accepts payload session c player _ :=
      ⟨handId, action, amount, playerId, hand, hfields, hsession, hhand, hid, hget, hyes⟩
    have hclean := (noErrors_iff_accepts h payload session c).mpr ⟨player, _, haccepts⟩
    rw [← step_action hpayload] at hclean
    obtain ⟨n, -, -, hn, -⟩ := hasked session json c payload rfl hpayload hclean
    exact hnot n hn
  · rintro hno session json c payload rfl hpayload hclean
    rw [step_action hpayload, noErrors_iff_accepts h] at hclean
    obtain ⟨player, tm, haccepts⟩ := hclean
    obtain ⟨handId, action, amount, playerId, hand, hfields, hsession, hhand, hid, hget, hyes⟩ :=
      haccepts
    obtain ⟨player', heap, hand', hget', happly, rfl⟩ := applied_of_accepted hhand hyes
    obtain rfl := Option.some.inj (hget.symm.trans hget')
    -- the amount is an integer, since it was not converted, and converted to itself
    have hinteger : ∃ n, AmountIs payload n := by
      by_contra hnot
      exact hno ⟨session, json, c, payload, handId, action, amount, playerId, hand, player, rfl,
        hpayload, fun n hn => hnot ⟨n, hn⟩, hfields, hsession, hhand, hid, hget,
        PlayerAction.valid_of_applyAction happly⟩
    obtain ⟨n, hn⟩ := hinteger
    obtain ⟨j, hj, hinj, hlo, hhi⟩ := id hn
    obtain ⟨j', hj', hread⟩ := actionFields_amount hfields
    obtain rfl := Except.ok.inj (hj.symm.trans hj')
    have hsame : n = amount :=
      Except.ok.inj ((Json.getInt_of_integer hinj hlo hhi c.undefInt).symm.trans hread)
    subst hsame
    have hpot : currentPot s.tableManager = hand.pot := by
      have hcurrent : s.tableManager.table.currentHand = some hand := hhand
      rw [currentPot, hcurrent]
    refine ⟨n, player, _, hn, ⟨handId, action, n, playerId, hand, hfields, hsession, hhand, hid,
      hget, hyes⟩, ?_, ?_⟩
    · exact (applied_stack happly player).trans (by rw [if_pos rfl])
    · rw [hpot]
      exact applied_pot happly

/-- In a run every accepted action moves the chips it asks for exactly when no
amount is accepted for what it is converted to. -/
theorem run_chipsAsAsked_iff (config : Config) (es : List Event) :
    (machine config).EveryStep ChipsAsAsked es ↔
      (machine config).EveryStep (fun s e => ¬ConvertsAmount s e) es :=
  (machine config).everyStep_congr (fun pre e => chipsAsAsked_iff (run_inv config pre) e) es

/-- A call of 2^32 + 20. -/
def hugePayload : Json := .object [("hand_id", .string "hand_1"), ("action", .string "call"),
  ("amount", .numberUnsigned 4294967316)]

def hugeCall : Event := .message 1 (some (.typed "action" hugePayload)) (.plain "2")

/-- It is accepted, for 20 chips. -/
theorem chipsAsAsked_hugeCall :
    ¬(machine ⟨30000, 60000⟩).EveryStep ChipsAsAsked (bothJoined ++ [hugeCall]) := by
  intro h
  have hclean : NoErrors (((machine ⟨30000, 60000⟩).run bothJoined).step hugeCall).2 := by
    unfold NoErrors
    decide +kernel
  obtain ⟨n, -, -, ⟨j, hj, hn, -, hlt⟩, -⟩ := h bothJoined hugeCall (List.prefix_refl _) 1 _ _
    hugePayload rfl (payloadOf_eq_some.mpr ⟨rfl, rfl⟩) hclean
  obtain rfl := Except.ok.inj hj
  obtain rfl := Option.some.inj hn
  revert hlt
  decide

end GameSession
end HeadsUp.Server
