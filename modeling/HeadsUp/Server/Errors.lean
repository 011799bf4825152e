import HeadsUp.Server.Moves

/-!
# Messages answered with an error

A handler stops at one of its checks, having done nothing, or runs to its end
without an error: nothing throws after the first write.
-/

namespace HeadsUp.Server
open HeadsUp.Core HeadsUp.Common HeadsUp.Lib

def Effect.isError : Effect → Bool
  | .send _ (.error _ _) => true
  | _ => false

def NoErrors (effects : List Effect) : Prop := ∀ e ∈ effects, e.isError = false

theorem NoErrors.append {effects effects' : List Effect} (h : NoErrors effects)
    (h' : NoErrors effects') : NoErrors (effects ++ effects') := by
  intro e he
  rcases List.mem_append.mp he with he | he
  · exact h e he
  · exact h' e he

theorem NoErrors.nil : NoErrors [] := by simp [NoErrors]

namespace GameSession
variable {s : GameSession}

/-! ### What is sent -/

theorem broadcastJson_noErrors (s : GameSession) (c : Choices) {message : Message}
    (h : ∀ session, (Effect.send session message).isError = false) :
    NoErrors (s.broadcastJson c message) := by
  intro e he
  obtain ⟨session, -, rfl⟩ := List.mem_map.mp he
  exact h session

theorem broadcastHandStarted_noErrors (s : GameSession) (c : Choices) :
    NoErrors (s.broadcastHandStarted c) := by
  unfold broadcastHandStarted
  split
  · exact NoErrors.nil
  · exact s.broadcastJson_noErrors c fun _ => rfl

theorem sendActionRequest_noErrors (s : GameSession) (playerId : String) :
    NoErrors (s.sendActionRequest playerId) := by
  unfold sendActionRequest
  split
  · simp [NoErrors, Effect.isError]
  · exact NoErrors.nil

theorem broadcastActionApplied_noErrors (s : GameSession) (c : Choices)
    (playerId action : String) (amount : ℤ) :
    NoErrors (s.broadcastActionApplied c playerId action amount) := by
  unfold broadcastActionApplied
  split
  · exact s.broadcastJson_noErrors c fun _ => rfl
  · exact NoErrors.nil

/-! ### How a handler ends -/

/-- It stops at a check, or it runs to its end. -/
inductive Settles (s : GameSession) (session : SessionId) : Outcome → Prop
  | stops (e : Stop) : Settles s session (s.stop session e)
  | runs {state : GameSession} {effects : List Effect} (hclean : NoErrors effects) :
      Settles s session ⟨state, effects, none⟩

theorem reject_settles (s : GameSession) (session : SessionId) (code message : String) :
    Settles s session (s.reject session code message) := .stops (.reply code message)

theorem handleTopUp_settles (s : GameSession) (session : SessionId) :
    Settles s session (s.handleTopUp session) := by
  unfold handleTopUp
  split
  · exact reject_settles s session _ _
  · split
    · exact reject_settles s session _ _
    · exact .runs (by simp [NoErrors, Effect.isError])

theorem reconnect_settles (s : GameSession) (player : PlayerRef) (playerId : String)
    (session : SessionId) (c : Choices) :
    Settles s session (s.reconnect player playerId session c) := by
  have hmoved : Settles s session (reconnect.reconnected s player playerId session c) := by
    refine .runs ((broadcastJson_noErrors _ c fun _ => rfl).append ?_)
    simp [NoErrors, Effect.isError]
  unfold reconnect
  split
  · split
    · exact reject_settles s session _ _
    · exact hmoved
  · exact hmoved

/-- The start of a hand throws nothing. -/
theorem startWhenReady_runs (hnone : s.hand = none) (c : Choices) {acked : List Effect}
    (hacked : NoErrors acked) : ∃ state effects, NoErrors effects ∧
      s.startWhenReady c acked = ⟨state, effects, none⟩ := by
  unfold startWhenReady
  by_cases hready : s.tableManager.table.isReadyForHand = true
  · obtain ⟨h1, h2⟩ := isReadyForHand_seats hready
    obtain ⟨p, hp⟩ := Option.isSome_iff_exists.mp h1
    obtain ⟨q, hq⟩ := Option.isSome_iff_exists.mp h2
    have hstart := startHand_eq hready hnone hp hq c.uuid c.constructed c.shuffled
    simp only [hready, hstart, Bool.not_true, Bool.false_eq_true, if_false, if_true]
    exact ⟨_, _, hacked.append (broadcastHandStarted_noErrors _ c), rfl⟩
  · rw [if_pos (by simp [hready])]
    exact ⟨_, _, hacked, rfl⟩

theorem seatNewPlayer_settles (h : TableInv Unfolded s.tableManager s.nextRef)
    (playerId name : String) (seat : ℤ) (session : SessionId) (c : Choices) :
    Settles s session (s.seatNewPlayer playerId name seat session c) := by
  rcases seatNewPlayer_cases h playerId name seat session c with
    heq | ⟨s', -, -, hnone, -, -, heq⟩
  · rw [heq]
    exact reject_settles s session _ _
  · have hacked : NoErrors [.seated s.nextRef, .send session (.joinAck playerId seat)] := by
      simp [NoErrors, Effect.isError]
    obtain ⟨state, effects, hclean, hrun⟩ := startWhenReady_runs hnone c hacked
    rw [heq, hrun]
    exact .runs hclean

theorem handleJoin_settles (h : TableInv Unfolded s.tableManager s.nextRef) (payload : Json)
    (session : SessionId) (c : Choices) : Settles s session (s.handleJoin payload session c) := by
  unfold handleJoin
  split
  · exact .stops _
  · split
    · exact reconnect_settles s _ _ session c
    · unfold joinAsNew
      split
      · exact reject_settles s session _ _
      · split
        · exact .runs (by simp [NoErrors, Effect.isError])
        · split
          · exact seatNewPlayer_settles h _ _ _ session c
          · split
            · exact seatNewPlayer_settles h _ _ _ session c
            · exact reject_settles s session _ _

/-- The end of a hand throws nothing. -/
theorem afterAction_runs (h : TableInv Contested s.tableManager s.nextRef) (c : Choices)
    {applied : List Effect} (happlied : NoErrors applied) : ∃ state effects, NoErrors effects ∧
      s.afterAction c applied = ⟨state, effects, none⟩ := by
  unfold afterAction
  cases hhand : s.tableManager.table.currentHand with
  | none => exact ⟨_, _, happlied, rfl⟩
  | some hand =>
    obtain ⟨hplay, hcon⟩ := h.playing hand hhand
    obtain ⟨turn, -, hturn⟩ := hplay.turn
    have hrequested := happlied.append
      (sendActionRequest_noErrors s (s.tableManager.heap turn).id)
    simp only [hturn, isHandComplete_playing hplay]
    by_cases hfew : (activePlayers hand).length ≤ 1
    · obtain ⟨completed, hcompleted⟩ := broadcastHandCompleted_ok h hhand hfew c
      obtain ⟨tm', added, hend, -⟩ := h.endHand hhand hfew c.tables
      simp only [hfew, hcompleted, hend, decide_true, Bool.not_true, Bool.false_eq_true, if_false]
      have hsent : NoErrors (s.broadcastJson c (.handCompleted completed)) :=
        s.broadcastJson_noErrors c fun _ => rfl
      refine ⟨_, _, (hrequested.append hsent).append ?_, rfl⟩
      simp [NoErrors, Effect.isError]
    · simp only [hfew, decide_false, Bool.not_false, if_true]
      exact ⟨_, _, hrequested, rfl⟩

theorem performAction_settles (h : TableInv Unfolded s.tableManager s.nextRef)
    (handId action : String) (amount : ℤ) (session : SessionId) (c : Choices) :
    Settles s session (s.performAction handId action amount session c) := by
  unfold performAction
  split
  · exact reject_settles s session _ _
  · rename_i playerId _
    split
    · exact reject_settles s session _ _
    · split
      · exact reject_settles s session _ _
      · by_cases hok : (s.tableManager.processPlayerAction playerId action amount c.now).1 = true
        · simp only [hok, Bool.not_true, Bool.false_eq_true, if_false]
          have hinv := (h.processPlayerAction hok).1
          obtain ⟨state, effects, hclean, hrun⟩ := afterAction_runs
            (s := { s with tableManager :=
              (s.tableManager.processPlayerAction playerId action amount c.now).2 }) hinv c
            (broadcastActionApplied_noErrors _ c playerId action amount)
          rw [hrun]
          exact .runs hclean
        · simp only [hok, Bool.not_false, if_true]
          exact reject_settles s session _ _

theorem dispatch_settles (h : TableInv Unfolded s.tableManager s.nextRef) (json : Json)
    (session : SessionId) (c : Choices) : Settles s session (s.dispatch json session c) := by
  rcases dispatch_cases s json session c with
    ⟨-, heq⟩ | ⟨-, ⟨payload, -, heq⟩ | ⟨payload, -, heq⟩ | heq | ⟨e, heq⟩⟩
  · rw [heq]
    exact handleTopUp_settles s session
  · rw [heq]
    exact handleJoin_settles h payload session c
  · rw [heq, handleAction]
    split
    · exact .stops _
    · exact performAction_settles h _ _ _ session c
  · rw [heq]
    exact .runs (by simp [NoErrors, Effect.isError])
  · rw [heq]
    exact .stops e

/-! ### Replies -/

theorem caught_stop (s : GameSession) (session : SessionId) (e : Stop) :
    ∃ code message, caught (s.stop session e) session
      = (s, [.send session (.error code message)]) := by
  cases e with
  | reply code message => exact ⟨code, message, rfl⟩
  | throw e => cases e <;> exact ⟨_, _, rfl⟩

theorem caught_settled {session : SessionId} {outcome : Outcome}
    (h : Settles s session outcome) (herror : ¬NoErrors (caught outcome session).2) :
    ∃ code message, caught outcome session = (s, [.send session (.error code message)]) := by
  cases h with
  | runs hclean => exact absurd hclean herror
  | stops e => exact caught_stop s session e

/-- Whatever a session sends in whatever state, if the answer has an error in
it, that error is all there is and the state is the same. -/
theorem error_unchanged (config : Config) (es : List Event) (session : SessionId)
    (text : Option Json) (c : Choices) :
    let s := (machine config).run es
    (∃ e ∈ (s.handleMessage text session c).2, e.isError = true) →
      ∃ code message, s.handleMessage text session c = (s, [.send session (.error code message)]) := by
  intro s hh
  obtain ⟨e, he, herror⟩ := hh
  have hnot : ¬NoErrors (s.handleMessage text session c).2 := by
    intro hclean
    rw [hclean e he] at herror
    cases herror
  cases text with
  | none => exact ⟨_, _, rfl⟩
  | some json => exact caught_settled (dispatch_settles (run_inv config es) json session c) hnot

/-- Alice calls out of turn. -/
def offTurn : Option Json := some (Client.Message.action "hand_1" "call" 2).toJson

theorem error_unchanged_offTurn :
    let s := (machine ⟨30000, 60000⟩).run bothJoined
    ∃ code message, s.handleMessage offTurn 0 (.plain "2")
      = (s, [.send 0 (.error code message)]) :=
  error_unchanged ⟨30000, 60000⟩ bothJoined 0 offTurn (.plain "2") (by decide +kernel)

end GameSession
end HeadsUp.Server
