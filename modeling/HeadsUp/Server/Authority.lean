import HeadsUp.Server.OneHand
import HeadsUp.Server.Completion
import HeadsUp.Server.SessionMaps

/-!
# Who acts for a player

A player is given to a session when the server welcomes it, and again when a
session reconnects to him while he is away. Whatever the order of events, only
the session he was last given to acts for him, and only until it disconnects.
-/

namespace HeadsUp.Server
open HeadsUp.Core HeadsUp.Common HeadsUp.Lib

namespace GameSession
variable {s s' : GameSession} {session listener : SessionId} {c : Choices} {json : Json}
  {playerId : String}

/-- The event gives the player to the session. -/
inductive Gives (s : GameSession) (session : SessionId) (playerId : String) : Event → Prop
  | welcomes : Gives s session playerId (.connect session playerId)
  | reconnects {json : Json} {c : Choices} {name : String} {player : PlayerRef}
      (hjoin : joinOf json = some (name, playerId))
      (habsent : s.absentPlayer playerId = some player)
      (hfree : ∀ other, s.playerSessions.lookup playerId = some other → other = session) :
      Gives s session playerId (.message session (some json) c)

/-- The session has the player of the event `gives`, and has had him since. -/
structure HoldsSince (config : Config) (earlier : List Event) (gives : Event) (later : List Event)
    (session : SessionId) (playerId : String) : Prop where
  given : Gives ((machine config).run earlier) session playerId gives
  stays : ∀ c, .disconnect session c ∉ later
  last : ∀ mid e rest, later = mid ++ e :: rest → ∀ other,
    Gives ((machine config).run (earlier ++ gives :: mid)) other playerId e → other = session

/-! ### Actions that are applied -/

theorem handCompleted_of_mem {completed : List Effect}
    (hcompleted : s.broadcastHandCompleted c = .ok completed) {message : Message}
    (hmem : .send listener message ∈ completed) : ∃ payload, message = .handCompleted payload := by
  unfold broadcastHandCompleted at hcompleted
  split at hcompleted
  · cases hcompleted
    cases hmem
  · simp only at hcompleted
    split_ifs at hcompleted
    · obtain ⟨winners, -, hcompleted⟩ := ok_of_bind hcompleted
      cases hcompleted
      exact ⟨_, broadcastJson_send hmem⟩
    · cases hcompleted
      exact ⟨_, broadcastJson_send hmem⟩

theorem not_mem_request {applied : ActionApplied} (turn : Option PlayerRef) :
    .send listener (.actionApplied applied) ∉
      (match turn with
        | some player => s.sendActionRequest (s.tableManager.heap player).id
        | none => []) := by
  intro hturn
  cases turn with
  | none => cases hturn
  | some player =>
    unfold sendActionRequest at hturn
    simp only at hturn
    split at hturn
    · cases (Effect.send.inj (List.mem_singleton.mp hturn)).2
    · cases hturn

theorem mem_afterAction {effects : List Effect} {applied : ActionApplied}
    (hmem : .send listener (.actionApplied applied) ∈ (s.afterAction c effects).effects) :
    .send listener (.actionApplied applied) ∈ effects := by
  unfold afterAction at hmem
  split at hmem
  · exact hmem
  · rename_i hand _
    simp only at hmem
    split_ifs at hmem
    · exact (List.mem_append.mp hmem).resolve_right (not_mem_request _)
    · split at hmem
      · exact (List.mem_append.mp hmem).resolve_right (not_mem_request _)
      · rename_i completed hcompleted
        rw [List.mem_append, List.mem_append] at hmem
        rcases hmem with (hmem | hmem) | hmem
        · exact (List.mem_append.mp hmem).resolve_right (not_mem_request _)
        · obtain ⟨payload, hpayload⟩ := handCompleted_of_mem hcompleted hmem
          cases hpayload
        · cases List.mem_singleton.mp hmem

theorem Acts.applied (h : TableInv Unfolded s.tableManager s.nextRef) {action : String}
    {amount : ℤ} {hand : Hand} {player : PlayerRef}
    (hacts : Acts s session json c action amount player hand) {applied : ActionApplied}
    (hmem : .send listener (.actionApplied applied) ∈
      (s.step (.message session (some json) c)).2) :
    s.sessionToPlayer.lookup session = some applied.playerId := by
  obtain ⟨haction, hhand, ⟨playerId, hsession, hget⟩, hvalid⟩ := hacts
  obtain ⟨payload, hpayload, hfields⟩ := actionOf_eq_some.mp haction
  obtain ⟨_, _, -, hyes⟩ := accepted_of_valid hhand hget hvalid c.now
  obtain ⟨heq, -⟩ := handleAction_accepted h hfields hsession hhand rfl hyes
  rw [step_action hpayload, heq] at hmem
  have happlied := mem_afterAction hmem
  unfold broadcastActionApplied at happlied
  split at happlied
  · cases broadcastJson_send happlied
    exact hsession
  · cases happlied

/-- Only an action of the player's own session is applied. -/
theorem applied_session (h : TableInv Unfolded s.tableManager s.nextRef)
    (horder : SeatOrder s.tableManager.table) {e : Event} {applied : ActionApplied}
    (hmem : .send listener (.actionApplied applied) ∈ (s.step e).2) :
    ∃ session text c, e = .message session text c ∧
      s.sessionToPlayer.lookup session = some applied.playerId := by
  by_cases hacts : ∃ session json c action amount player hand,
      e = .message session (some json) c ∧ Acts s session json c action amount player hand
  · obtain ⟨session, json, c, _, _, _, _, rfl, hacts⟩ := hacts
    exact ⟨session, _, c, rfl, hacts.applied h hmem⟩
  · by_cases hstarts : ∃ session json c,
        e = .message session (some json) c ∧ SecondJoins s session json
    · obtain ⟨session, json, c, rfl, hsecond⟩ := hstarts
      obtain ⟨player, playerId, seat, started, heffects⟩ := step_starts h hsecond c
      rw [heffects, List.mem_append] at hmem
      rcases hmem with hmem | hmem
      · simp at hmem
      · cases broadcastJson_send hmem
    · have hquiet := step_quiet horder
        (fun session json c action amount player hand heq hh =>
          hacts ⟨session, json, c, action, amount, player, hand, heq, hh⟩)
        (fun session json c heq hh => hstarts ⟨session, json, c, heq, hh⟩)
      exact absurd trivial (hquiet listener (.actionApplied applied) hmem)

/-! ### How a session keeps its player -/

theorem Gives.lookup {e : Event} (h : Gives s session playerId e) :
    (s.step e).1.sessionToPlayer.lookup session = some playerId := by
  cases h with
  | welcomes => exact AList.lookup_insert _
  | reconnects hjoin habsent hfree =>
    rw [step_reconnect hjoin habsent hfree]
    exact AList.lookup_insert _

theorem Moves.given {e : Event} (hmove : Moves s e s')
    (hl : s'.sessionToPlayer.lookup session = some playerId) :
    s.sessionToPlayer.lookup session = some playerId ∨ Gives s session playerId e := by
  have hmapped := @Moves.mapped _ _ _ hmove session playerId
  cases hmove with
  | welcomes other otherId =>
    by_cases hother : other = session
    · subst hother
      obtain rfl : otherId = playerId := Option.some.inj ((AList.lookup_insert _).symm.trans hl)
      exact .inr .welcomes
    · exact .inl (hmapped (fun hh => hother (Option.some.inj hh)) (by simp) hl)
  | rests hrests => exact .inl (hrests.sessions.2 ▸ hl)
  | acts _ _ _ _ _ _ hrests => exact .inl (hrests.sessions.2 ▸ hl)
  | seats _ _ _ _ hseats => exact .inl (hseats.sessions.2 ▸ hl)
  | @takes other json c name provided player hjoin habsent hfree =>
    by_cases hother : other = session
    · subst hother
      obtain rfl : provided = playerId := Option.some.inj ((AList.lookup_insert _).symm.trans hl)
      exact .inr (.reconnects hjoin habsent hfree)
    · refine .inl (hmapped (by simp [Event.welcomed]) (fun json' c' name' provided' heq => ?_) hl)
      cases heq
      exact absurd rfl hother
  | _ => exact .inl (hmapped (by simp [Event.welcomed]) (by simp) hl)

/-! ### Runs -/

theorem holdsSince_of_lookup {config : Config} {es : List Event} (hsessions : FreshSessions es)
    (hids : FreshIds es)
    (hl : ((machine config).run es).sessionToPlayer.lookup session = some playerId) :
    ∃ earlier gives later, es = earlier ++ gives :: later ∧
      HoldsSince config earlier gives later session playerId := by
  induction es using List.reverseRecOn with
  | nil =>
    have hnone : (∅ : AList fun _ : SessionId => String).lookup session = some playerId := hl
    simp at hnone
  | append_singleton es e ih =>
    have hpre : es <+: es ++ [e] := List.prefix_append es [e]
    have hpaired := run_paired config hsessions hids
    have hl' := hl
    rw [Machine.run_concat] at hl'
    rcases (run_moves config es e).given hl' with hheld | hgives
    · obtain ⟨earlier, gives, later, rfl, hholds⟩ :=
        ih (hsessions.of_prefix hpre) (hids.of_prefix hpre) hheld
      refine ⟨earlier, gives, later ++ [e], by simp, hholds.given, fun c hmem => ?_, ?_⟩
      · rcases List.mem_append.mp hmem with hmem | hmem
        · exact hholds.stays c hmem
        · obtain rfl := (List.mem_singleton.mp hmem).symm
          have hpaired' := run_paired config (hsessions.of_prefix hpre) (hids.of_prefix hpre)
          have hgone := onDisconnect_unmapped hpaired'.inverse session c
          have hsame := hgone.symm.trans hl'
          cases hsame
      · intro mid x rest hsplit other hgives
        rcases List.eq_nil_or_concat rest with rfl | ⟨rest, last, rfl⟩
        · obtain ⟨rfl, rfl⟩ : later = mid ∧ e = x := by
            simpa using List.append_inj' hsplit rfl
          have hother := hgives.lookup
          exact hpaired.inverse.symm.left_unique (by
            rw [Machine.run_concat]
            exact hother) hl
        · obtain ⟨rfl, -⟩ : later = mid ++ x :: rest ∧ [e] = [last] := by
            refine List.append_inj' ?_ rfl
            rw [hsplit]
            simp
          exact hholds.last mid x rest rfl other hgives
    · exact ⟨es, e, [], rfl, hgives, by simp, by simp⟩

/-- Every action the server announces was sent by the session to which its
player was last given, and which has not disconnected since. -/
theorem authority (config : Config) {es : List Event} (hsessions : FreshSessions es)
    (hids : FreshIds es) {pre : List Event} {e : Event} (hpre : pre ++ [e] <+: es)
    {listener : SessionId} {applied : ActionApplied}
    (hmem : .send listener (.actionApplied applied) ∈
      (machine config).emits ((machine config).run pre) e) :
    ∃ session text c, e = .message session text c ∧ ∃ earlier gives later,
      pre = earlier ++ gives :: later ∧
        HoldsSince config earlier gives later session applied.playerId := by
  have hbefore : pre <+: es := (List.prefix_append pre [e]).trans hpre
  obtain ⟨session, text, c, rfl, hl⟩ :=
    applied_session (run_inv config pre) (run_seatOrder config pre) hmem
  exact ⟨session, text, c, rfl,
    holdsSince_of_lookup (hsessions.of_prefix hbefore) (hids.of_prefix hbefore) hl⟩

def bobsCall : ActionApplied := ⟨"hand_1", "bob", "call", 100, 300, 100, "alice"⟩

theorem authority_bobsCall : ∃ session text c,
    sent 1 (.action "hand_1" "call" 100) = .message session text c ∧ ∃ earlier gives later,
      bothJoined = earlier ++ gives :: later ∧
        HoldsSince ⟨30000, 60000⟩ earlier gives later session "bob" :=
  @authority ⟨30000, 60000⟩ bobCalls (by decide) (by decide) bothJoined _
    (List.prefix_refl bobCalls) 0 bobsCall (by decide +kernel)

end GameSession
end HeadsUp.Server
