import HeadsUp.Game.Bots
import HeadsUp.Server.Announcements
import HeadsUp.Server.Waiting

/-!
# A bot's join at the table

What the bots hear of a join that finds a seat: the sender its own answer, and
both the hand when it is the second.
-/

namespace HeadsUp.Game
open HeadsUp.Core HeadsUp.Common HeadsUp.Lib HeadsUp.Server HeadsUp.Server.GameSession

variable {s : GameSession} {session : SessionId} {playerId name : String} {seat : ℤ}

theorem joinOf_join (hname : name ≠ "") :
    joinOf (Client.Message.join name).toJson = some (name, "") := by
  have hpayload : payloadOf (Client.Message.join name).toJson "join"
      = some (.object [("name", .string name)]) := rfl
  have hfields : joinFields (.object [("name", .string name)]) = .ok (name, "") := by
    simp [joinFields, readString, Json.contains, Json.get, Json.getString, Except.bind, hname,
      Except.mapError, bind, pure, Except.pure]
  exact joinOf_eq_some.mpr ⟨_, hpayload, hfields⟩

/-- The first player sits down and waits. -/
theorem joinAsNew_first (h : TableInv Unfolded s.tableManager s.nextRef)
    (hsession : s.sessionToPlayer.lookup session = some playerId)
    (hnew : s.tableManager.getPlayer playerId = none) (hone : s.tableManager.table.seat1 = none)
    (htwo : s.tableManager.table.seat2 = none) (c : Choices) :
    let r := s.joinAsNew name session c
    Seats s r.state playerId ∧ r.state.hand = none ∧ r.thrown = none ∧
      r.effects = [.seated s.nextRef, .send session (.joinAck playerId seat1)] := by
  intro r
  have hr : r = s.seatNewPlayer playerId name seat1 session c := by
    simp only [r, joinAsNew, hsession, hnew, if_pos hone]
  have hok := assignSeat_new h hnew name (.inl ⟨rfl, hone⟩)
  obtain ⟨-, table, heap, htm, -, -, htable⟩ := assignSeat_cases hok
  have hfree : table.seat2 = none := by
    rcases htable with ⟨-, -, rfl⟩ | ⟨hseat, -, -⟩
    · exact htwo
    · exact absurd hseat (by decide)
  have hwaits : s.seatNewPlayer playerId name seat1 session c
      = ⟨{ s with
          tableManager := ⟨table, s.tableManager.players ++ [s.nextRef], heap⟩
          nextRef := s.nextRef + 1 },
        [.seated s.nextRef, .send session (.joinAck playerId seat1)], none⟩ := by
    simp only [seatNewPlayer, hok, Bool.not_true, Bool.false_eq_true, if_false, htm]
    exact startWhenReady_waits hfree c _
  rw [hr]
  obtain ⟨hidle, -⟩ := h.of_free_seat (.inr htwo)
  have hhand : table.currentHand = none := by
    rcases htable with ⟨-, -, rfl⟩ | ⟨hseat, -, -⟩
    · exact hidle
    · exact absurd hseat (by decide)
  rcases seatNewPlayer_moves h playerId name (.inl ⟨rfl, hone⟩) session c with hsame | hseats
  · have hnext : (s.seatNewPlayer playerId name seat1 session c).state.nextRef = s.nextRef + 1 := by
      rw [hwaits]
    rw [hsame] at hnext
    exact absurd hnext (Nat.ne_of_lt (Nat.lt_succ_self s.nextRef))
  · refine ⟨hseats, ?_, ?_, ?_⟩
    · rw [hwaits]
      exact hhand
    · rw [hwaits]
    · rw [hwaits]

/-- What a bot hears of a join: its own answer, and the hand if it starts. -/
structure JoinHeard (s : GameSession) (session : SessionId) (r : GameSession × List Effect)
    (playerId : String) : Prop where
  seats : Seats s r.1 playerId
  heard : ∃ ackId seat, ∃ started : List HandStarted,
    started.length = (if r.1.hand.isSome = true then 1 else 0) ∧
    ∀ listener, messagesFor listener r.2
      = (if session = listener then [.joinAck ackId seat] else []) ++
        if (s.sessionToPlayer.lookup listener).isSome = true then started.map .handStarted else []
  starts : r.1.hand.isSome = true ↔ s.tableManager.table.seat1 ≠ none

theorem messagesFor_append (listener : SessionId) (effects effects' : List Effect) :
    messagesFor listener (effects ++ effects')
      = messagesFor listener effects ++ messagesFor listener effects' := List.filterMap_append

theorem messagesFor_single (listener receiver : SessionId) (message : Server.Message) :
    messagesFor listener [.send receiver message]
      = if receiver = listener then [message] else [] := by
  simp only [messagesFor, List.filterMap_cons, List.filterMap_nil]
  split_ifs <;> rfl

/-- A broadcast reaches each registered session once. -/
theorem messagesFor_broadcastJson (hinverse : Inverse s.playerSessions s.sessionToPlayer)
    (listener : SessionId) (c : Choices) (message : Server.Message) :
    messagesFor listener (s.broadcastJson c message)
      = if (s.sessionToPlayer.lookup listener).isSome = true then [message] else [] := by
  set sessions := s.playerSessions.entries.map fun entry => entry.2 with hsessions
  have hnodup : sessions.Nodup := by
    refine List.Nodup.map_on ?_ s.playerSessions.nodupKeys.nodup
    intro x hx y hy hxy
    have hx' : s.playerSessions.lookup x.1 = some x.2 := AList.mem_lookup_iff.mpr hx
    have hy' : s.playerSessions.lookup y.1 = some x.2 := hxy ▸ AList.mem_lookup_iff.mpr hy
    exact Sigma.ext (hinverse.left_unique hx' hy') (heq_of_eq hxy)
  have hfilter : messagesFor listener (s.broadcastJson c message)
      = ((c.sessions.apply sessions).filter (· = listener)).map fun _ => message := by
    rw [broadcastJson, messagesFor, ← hsessions]
    induction c.sessions.apply sessions with
    | nil => rfl
    | cons session rest ih =>
      simp only [List.map_cons, List.filterMap_cons, List.filter_cons, ih, decide_eq_true_eq]
      split_ifs <;> rfl
  rw [hfilter, List.filter_eq, List.map_replicate, (c.sessions.perm sessions).count_eq]
  by_cases hsome : (s.sessionToPlayer.lookup listener).isSome = true
  · obtain ⟨playerId, hl⟩ := Option.isSome_iff_exists.mp hsome
    have hmem : listener ∈ sessions :=
      List.mem_map.mpr ⟨⟨playerId, listener⟩, AList.mem_lookup_iff.mp ((hinverse _ _).mpr hl), rfl⟩
    rw [if_pos hsome, List.count_eq_one_of_mem hnodup hmem]
    rfl
  · have hnot : listener ∉ sessions := by
      intro hmem
      obtain ⟨entry, hentry, rfl⟩ := List.mem_map.mp hmem
      have hl := (hinverse _ _).mp (AList.mem_lookup_iff.mpr hentry)
      rw [hl] at hsome
      exact hsome rfl
    rw [if_neg hsome, List.count_eq_zero_of_not_mem hnot]
    rfl

theorem step_join_heard (h : TableInv Unfolded s.tableManager s.nextRef)
    (hinverse : Inverse s.playerSessions s.sessionToPlayer) (hname : name ≠ "")
    (hsession : s.sessionToPlayer.lookup session = some playerId)
    (hnew : s.tableManager.getPlayer playerId = none)
    (htwo : s.tableManager.table.seat2 = none) (c : Choices) :
    JoinHeard s session (s.step (.message session (some (Client.Message.join name).toJson) c))
      playerId := by
  by_cases hone : s.tableManager.table.seat1 = none
  · obtain ⟨hseats, hhand, hthrown, heffects⟩ :=
      @joinAsNew_first s session playerId name h hsession hnew hone htwo c
    have hstep : s.step (.message session (some (Client.Message.join name).toJson) c)
        = ((s.joinAsNew name session c).state, (s.joinAsNew name session c).effects) := by
      simp only [GameSession.step, handleMessage, dispatch_join, if_neg hname, caught, hthrown]
    rw [hstep]
    refine ⟨hseats, ⟨playerId, seat1, [], by simp [hhand], fun listener => ?_⟩, ?_⟩
    · simp only [heffects]
      exact (messagesFor_single listener session _).trans (by simp)
    · simp [hhand, hone]
  · have hjoin := joinOf_join hname
    have habsent : s.absentPlayer "" = none := rfl
    obtain ⟨hseats, hstarts⟩ := step_seats h hjoin habsent hsession hnew hone htwo c
    obtain ⟨player, ackId, seat, started, heffects⟩ :=
      step_starts h ⟨name, "", playerId, hjoin, habsent, hsession, hnew, hone, htwo⟩ c
    refine ⟨hseats, ⟨ackId, seat, [started], by simp [hstarts], fun listener => ?_⟩,
      iff_of_true hstarts hone⟩
    rw [heffects, messagesFor_append, messagesFor_broadcastJson hinverse]
    exact congrArg (· ++ _) (messagesFor_single listener session _)

end HeadsUp.Game
