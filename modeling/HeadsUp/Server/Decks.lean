import HeadsUp.Server.Privacy

/-!
# The decks do not matter

Two runs with the same events but for the order of the cards say the same to
everybody, apart from the hole cards in `hand_started`, and pay the same chips:
the server deals and announces the cards and never looks at them.
-/

namespace HeadsUp.Server
open HeadsUp.Core HeadsUp.Common HeadsUp.Lib

/-- Without the hole cards. -/
def HandStarted.redact (payload : HandStarted) : HandStarted :=
  { payload with players := payload.players.map fun x => { x with holeCards := [] } }

def Message.redact : Message → Message
  | .handStarted payload => .handStarted payload.redact
  | message => message

def Effect.redact : Effect → Effect
  | .send session message => .send session message.redact
  | e => e

namespace GameSession
variable {s t : GameSession}

theorem startedPayload_redact (h : s.redact = t.redact) {hand hand' : Hand}
    (hhand : hand.redact = hand'.redact) :
    (s.startedPayload hand).redact = (t.startedPayload hand').redact := by
  have hid : ∀ p, (s.tableManager.heap p).id = (t.tableManager.heap p).id :=
    fun p => (congrArg Player.id (heap_of_redact h p) :)
  have hstack : ∀ p, (s.tableManager.heap p).stack = (t.tableManager.heap p).stack :=
    fun p => (congrArg Player.stack (heap_of_redact h p) :)
  have hplayers : hand.players = hand'.players := (congrArg Hand.players hhand :)
  have hcurrent : hand.currentPlayerToAct = hand'.currentPlayerToAct :=
    (congrArg Hand.currentPlayerToAct hhand :)
  have hturn : s.idOf hand.currentPlayerToAct = t.idOf hand'.currentPlayerToAct := by
    rw [hcurrent]
    cases hand'.currentPlayerToAct with
    | none => rfl
    | some p => exact hid p
  have hdealer : s.tableManager.table.dealerButtonPosition
      = t.tableManager.table.dealerButtonPosition :=
    congrArg (fun x => x.tableManager.table.dealerButtonPosition) h
  have hhandId : hand.id = hand'.id := (congrArg Hand.id hhand :)
  have hminRaise : hand.minRaise = hand'.minRaise := (congrArg Hand.minRaise hhand :)
  simp only [startedPayload, HandStarted.redact, List.map_map, Function.comp_def, hid, hstack,
    hplayers, hturn, hdealer, hhandId, hminRaise]

theorem broadcastJson_redact (h : s.playerSessions = t.playerSessions) {c c' : Choices}
    (hc : c.sessions = c'.sessions) {message message' : Message}
    (hmessage : message.redact = message'.redact) :
    (s.broadcastJson c message).map Effect.redact
      = (t.broadcastJson c' message').map Effect.redact := by
  simp only [broadcastJson, h, hc, List.map_map, Function.comp_def, Effect.redact, hmessage]

/-- A step without the cards says the same without the cards. -/
theorem step_says_redact (h : TableInv Unfolded s.tableManager s.nextRef) (e : Event) :
    (s.redact.step e.redact).2.map Effect.redact = (s.step e).2.map Effect.redact := by
  have hstep := step_redact h e
  generalize s.step e = after at hstep
  generalize s.redact.step e.redact = after' at hstep
  cases hstep with
  | same => rfl
  | @starts session json c s' t' acked hnone hdealt hstate =>
    obtain ⟨hand, _, _, hhand, -⟩ := hdealt
    obtain ⟨hand', hhand', hsame⟩ := hand_of_redact hstate.symm hhand
    have hsessions : t'.playerSessions = s'.playerSessions :=
      (congrArg (fun x => x.playerSessions) hstate :)
    have hpayload : Message.redact (.handStarted (t'.startedPayload hand'))
        = Message.redact (.handStarted (s'.startedPayload hand)) :=
      congrArg Message.handStarted (startedPayload_redact hstate hsame.symm)
    have hstarted : (t'.broadcastJson c.redact (.handStarted (t'.startedPayload hand'))).map
          Effect.redact
        = (s'.broadcastJson c (.handStarted (s'.startedPayload hand))).map Effect.redact :=
      broadcastJson_redact hsessions rfl hpayload
    rw [List.map_append, List.map_append, broadcastHandStarted_eq hhand,
      broadcastHandStarted_eq hhand', hstarted]

theorem step_says_congr (hs : TableInv Unfolded s.tableManager s.nextRef)
    (ht : TableInv Unfolded t.tableManager t.nextRef) (h : s.redact = t.redact) {e e' : Event}
    (he : e.redact = e'.redact) :
    (s.step e).2.map Effect.redact = (t.step e').2.map Effect.redact := by
  rw [← step_says_redact hs e, ← step_says_redact ht e', h, he]

/-- Two runs whose events differ in the decks alone: without the hole cards
everybody hears the same in both, and both come to the same state. -/
theorem decks_do_not_matter (config : Config) {zs : List (Event × Event)}
    (hz : ∀ z ∈ zs, z.1.redact = z.2.redact) :
    ((machine config).trace (zs.map Prod.fst)).map Effect.redact
        = ((machine config).trace (zs.map Prod.snd)).map Effect.redact ∧
      ((machine config).run (zs.map Prod.fst)).redact
        = ((machine config).run (zs.map Prod.snd)).redact := by
  refine ⟨?_, run_redact config hz⟩
  induction zs using List.reverseRecOn with
  | nil => rfl
  | append_singleton zs z ih =>
    have hbefore : ∀ x ∈ zs, x.1.redact = x.2.redact := fun x hx => hz x (by simp [hx])
    have hlast : ((machine config).emits ((machine config).run (zs.map Prod.fst)) z.1).map
          Effect.redact
        = ((machine config).emits ((machine config).run (zs.map Prod.snd)) z.2).map
          Effect.redact :=
      step_says_congr (run_inv config _) (run_inv config _) (run_redact config hbefore)
        (hz z (by simp))
    simp only [List.map_append, List.map_singleton, Machine.trace_concat, ih hbefore, hlast]

theorem decks_do_not_matter_twoDecks :
    ((machine ⟨30000, 60000⟩).trace (twoDecks.map Prod.fst)).map Effect.redact
        = ((machine ⟨30000, 60000⟩).trace (twoDecks.map Prod.snd)).map Effect.redact ∧
      ((machine ⟨30000, 60000⟩).run (twoDecks.map Prod.fst)).redact
        = ((machine ⟨30000, 60000⟩).run (twoDecks.map Prod.snd)).redact :=
  decks_do_not_matter ⟨30000, 60000⟩ (by
    intro z hz
    rcases List.mem_append.mp hz with hz | hz
    · obtain ⟨e, -, rfl⟩ := List.mem_map.mp hz
      rfl
    · rw [List.mem_singleton.mp hz]
      rfl)

end GameSession
end HeadsUp.Server
