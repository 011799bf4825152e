import HeadsUp.Lib.Twin
import HeadsUp.Server.Redaction

/-!
# Who hears of the hole cards

Two runs of a session with the same events but for the decks. They differ in
the cards alone, and only `hand_started` shows cards: those of both players to
everybody.
-/

namespace HeadsUp.Server
open HeadsUp.Core HeadsUp.Common HeadsUp.Lib

/-! ### What one session hears -/

def heard (session : SessionId) (effects : List Effect) : List Message :=
  effects.filterMap fun
    | .send listener message => if listener = session then some message else none
    | _ => none

theorem heard_append (session : SessionId) (effects effects' : List Effect) :
    heard session (effects ++ effects') = heard session effects ++ heard session effects' :=
  List.filterMap_append

namespace GameSession
variable {s t : GameSession}

theorem heard_broadcastJson (s : GameSession) (c : Choices) (message : Message)
    (session : SessionId) : heard session (s.broadcastJson c message)
      = List.replicate ((s.playerSessions.entries.map fun e => e.2).count session) message := by
  have hlist : ∀ l : List SessionId, heard session (l.map fun listener => .send listener message)
      = List.replicate (l.count session) message := by
    intro l
    induction l with
    | nil => rfl
    | cons listener l ih =>
      rw [List.map_cons, heard, List.filterMap_cons, List.count_cons]
      by_cases heq : listener = session
      · simp [heq, List.replicate_succ, ← ih, heard]
      · simp [heq, ← ih, heard]
  rw [broadcastJson, hlist, (c.sessions.perm _).count_eq]

/-! ### The message that starts a hand -/

def startedPayload (s : GameSession) (hand : Hand) : HandStarted where
  handId := hand.id
  players := hand.players.map fun p =>
    ⟨(s.tableManager.heap p).id, (s.tableManager.heap p).stack,
      (s.tableManager.heap p).holeCards.map Card.toString⟩
  smallBlind := smallBlind
  bigBlind := bigBlind
  dealerPosition := s.tableManager.table.dealerButtonPosition
  currentPlayerToAct := s.idOf hand.currentPlayerToAct
  minRaise := hand.minRaise

theorem broadcastHandStarted_eq {hand : Hand} (hhand : s.hand = some hand) (c : Choices) :
    s.broadcastHandStarted c = s.broadcastJson c (.handStarted (s.startedPayload hand)) := by
  have hcurrent : s.tableManager.table.currentHand = some hand := hhand
  simp only [broadcastHandStarted, hcurrent]
  rfl

theorem heap_of_redact (h : s.redact = t.redact) (p : PlayerRef) :
    (s.tableManager.heap p).redact = (t.tableManager.heap p).redact :=
  congrArg (fun x => x.tableManager.heap p) h

theorem hand_of_redact (h : s.redact = t.redact) {hand : Hand} (hhand : s.hand = some hand) :
    ∃ hand', t.hand = some hand' ∧ hand.redact = hand'.redact := by
  have hhands : s.hand.map Hand.redact = t.hand.map Hand.redact :=
    congrArg (fun x => x.tableManager.table.currentHand) h
  rw [hhand, Option.map_some] at hhands
  obtain ⟨hand', hhand', heq⟩ := Option.map_eq_some_iff.mp hhands.symm
  exact ⟨hand', hhand', heq.symm⟩

theorem none_of_redact (h : s.redact = t.redact) (hnone : s.hand = none) : t.hand = none := by
  cases hhand : t.hand with
  | none => rfl
  | some hand =>
    obtain ⟨hand', hhand', -⟩ := hand_of_redact h.symm hhand
    rw [hnone] at hhand'
    cases hhand'

/-- Of two hands dealt alike but for the cards the messages are the same exactly
when the cards are. -/
theorem startedPayload_eq_iff (h : s.redact = t.redact) {hand hand' : Hand}
    (hhand : hand.redact = hand'.redact) :
    s.startedPayload hand = t.startedPayload hand' ↔ ∀ p ∈ hand.players,
      (s.tableManager.heap p).holeCards = (t.tableManager.heap p).holeCards := by
  have hplayers : hand.players = hand'.players := (congrArg Hand.players hhand :)
  constructor
  · intro heq p hp
    have hdealt := congrArg HandStarted.players heq
    simp only [startedPayload, ← hplayers, List.map_inj_left] at hdealt
    have hstrings := congrArg DealtPlayer.holeCards (hdealt p hp)
    exact List.map_injective_iff.mpr Card.toString_injective hstrings
  · intro hcards
    have hid : ∀ p, (s.tableManager.heap p).id = (t.tableManager.heap p).id :=
      fun p => (congrArg Player.id (heap_of_redact h p) :)
    have hstack : ∀ p, (s.tableManager.heap p).stack = (t.tableManager.heap p).stack :=
      fun p => (congrArg Player.stack (heap_of_redact h p) :)
    have hturn : s.idOf hand.currentPlayerToAct = t.idOf hand'.currentPlayerToAct := by
      rw [show hand.currentPlayerToAct = hand'.currentPlayerToAct from
        (congrArg Hand.currentPlayerToAct hhand :)]
      cases hand'.currentPlayerToAct with
      | none => rfl
      | some p => exact hid p
    have hdealt : hand.players.map (fun p => (⟨(s.tableManager.heap p).id,
          (s.tableManager.heap p).stack, (s.tableManager.heap p).holeCards.map Card.toString⟩
          : DealtPlayer))
        = hand'.players.map fun p => ⟨(t.tableManager.heap p).id, (t.tableManager.heap p).stack,
          (t.tableManager.heap p).holeCards.map Card.toString⟩ := by
      rw [← hplayers, List.map_inj_left]
      intro p hp
      rw [hid, hstack, hcards p hp]
    simp only [startedPayload, hdealt, hturn]
    congr 1
    · exact (congrArg Hand.id hhand :)
    · exact congrArg (fun x => x.tableManager.table.dealerButtonPosition) h
    · exact (congrArg Hand.minRaise hhand :)

theorem holdDealt_eq_iff {c c' : Choices} (h : s.redact = t.redact) (hs : HoldDealt c s)
    (ht : HoldDealt c' t) {hand hand' : Hand} (hhand : s.hand = some hand)
    (hhand' : t.hand = some hand') :
    s.startedPayload hand = t.startedPayload hand' ↔
      c.deck.cards.take 4 = c'.deck.cards.take 4 := by
  obtain ⟨_, p, q, hsome, hpq, hp, hq, hcards⟩ := hs
  obtain ⟨_, p', q', hsome', hpq', hp', hq', hcards'⟩ := ht
  obtain rfl := Option.some.inj (hhand.symm.trans hsome)
  obtain rfl := Option.some.inj (hhand'.symm.trans hsome')
  obtain ⟨hand₁, hhand₁, heq⟩ := hand_of_redact h hhand
  obtain rfl := Option.some.inj (hhand'.symm.trans hhand₁)
  have hplayers : hand.players = hand'.players := (congrArg Hand.players heq :)
  rw [hpq, hpq'] at hplayers
  obtain ⟨rfl, rfl⟩ : p = p' ∧ q = q' := by simpa using hplayers
  rw [startedPayload_eq_iff h heq, hpq, ← hcards, ← hcards']
  constructor
  · intro hall
    rw [hall p (by simp), hall q (by simp)]
  · intro happend
    obtain ⟨hfirst, hsecond⟩ := List.append_inj happend (hp.trans hp'.symm)
    intro r hr
    rcases List.mem_pair.mp hr with rfl | rfl
    · exact hfirst
    · exact hsecond

/-! ### Two runs -/

theorem step_redact_congr (hs : TableInv Unfolded s.tableManager s.nextRef)
    (ht : TableInv Unfolded t.tableManager t.nextRef) (h : s.redact = t.redact) {e e' : Event}
    (he : e.redact = e'.redact) : (s.step e).1.redact = (t.step e').1.redact := by
  have hstate := (step_redact hs e).state
  rw [h, he] at hstate
  exact hstate.symm.trans (step_redact ht e').state

/-- Without the cards two runs with the same events but for the decks are the
same. -/
theorem run_redact (config : Config) {zs : List (Event × Event)}
    (hz : ∀ z ∈ zs, z.1.redact = z.2.redact) :
    ((machine config).run (zs.map Prod.fst)).redact = ((machine config).run (zs.map Prod.snd)).redact :=
  (machine config).twin_relates (R := fun s t => s.redact = t.redact)
    (A := fun e e' => e.redact = e'.redact) rfl
    (fun es es' _ _ he h => step_redact_congr (run_inv config es) (run_inv config es') h he) zs hz

/-- A new player joins a table with one free seat. -/
def SecondJoins (s : GameSession) (session : SessionId) (json : Json) : Prop :=
  ∃ name provided playerId, joinOf json = some (name, provided) ∧ s.absentPlayer provided = none ∧
    s.sessionToPlayer.lookup session = some playerId ∧
    s.tableManager.getPlayer playerId = none ∧ s.tableManager.table.seat1 ≠ none ∧
    s.tableManager.table.seat2 = none

/-- Every session but the player's hears the same in the two steps. -/
def HeardAlike (playerId : String) (s : GameSession × GameSession) (z : Event × Event) : Prop :=
  ∀ session, s.1.playerSessions.lookup playerId ≠ some session →
    heard session (s.1.step z.1).2 = heard session (s.2.step z.2).2

/-- A hand is dealt from decks with different cards on top, and a session other
than the player's is there to hear of it. -/
def DealsInPublic (playerId : String) (s : GameSession × GameSession) (z : Event × Event) : Prop :=
  ∃ session json c c', z = (.message session (some json) c, .message session (some json) c') ∧
    SecondJoins s.1 session json ∧ c.deck.cards.take 4 ≠ c'.deck.cards.take 4 ∧
    ∃ entry ∈ s.1.playerSessions.entries, s.1.playerSessions.lookup playerId ≠ some entry.2

theorem secondJoins_iff (h : TableInv Unfolded s.tableManager s.nextRef)
    (horder : SeatOrder s.tableManager.table) (session : SessionId) (json : Json) (c : Choices) :
    SecondJoins s session json ↔
      s.hand = none ∧ (s.step (.message session (some json) c)).1.hand.isSome = true := by
  constructor
  · intro hh
    obtain ⟨name, provided, playerId, hjoin, habsent, hsession, hnew, hone, htwo⟩ := hh
    exact ⟨(h.of_free_seat (.inr htwo)).1,
      (step_seats h hjoin habsent hsession hnew hone htwo c).2⟩
  · intro hh
    obtain ⟨hnone, hsome⟩ := hh
    obtain ⟨_, _, _, name, provided, playerId, heq, hjoin, habsent, hsession, hnew, hseats⟩ :=
      (step_moves h _).starts hnone hsome
    cases heq
    obtain ⟨hone, htwo, -⟩ := hseats.second horder
      (hseats.hand _ (Option.eq_some_of_isSome hsome)).1
    exact ⟨name, provided, playerId, hjoin, habsent, hsession, hnew, hone, htwo⟩

/-- When a hand starts, both players' cards are in what everybody hears. -/
theorem heard_started (hs : TableInv Unfolded s.tableManager s.nextRef) {session : SessionId}
    {json : Json} {c : Choices} {acked : List Effect} (hnone : s.hand = none)
    {hand : Hand} (hhand : (s.step (.message session (some json) c)).1.hand = some hand)
    (heffects : (s.step (.message session (some json) c)).2
      = acked ++ (s.step (.message session (some json) c)).1.broadcastHandStarted c)
    (listener : SessionId) :
    heard listener (s.step (.message session (some json) c)).2 = heard listener acked ++
      List.replicate ((s.playerSessions.entries.map fun e => e.2).count listener)
        (.handStarted ((s.step (.message session (some json) c)).1.startedPayload hand)) := by
  obtain ⟨_, _, _, _, _, _, -, -, -, -, -, hseats⟩ :=
    (step_moves hs (.message session (some json) c)).starts hnone (by simp [hhand])
  rw [heffects, heard_append, broadcastHandStarted_eq hhand, heard_broadcastJson,
    hseats.sessions.1]

section Step
variable (hs : TableInv Unfolded s.tableManager s.nextRef)
  (ht : TableInv Unfolded t.tableManager t.nextRef) (h : s.redact = t.redact)
include hs ht h

/-- The starts of one hand in the two runs. -/
theorem heardAlike_started {session : SessionId} {json : Json} {c c' : Choices}
    {acked : List Effect} (hnone : s.hand = none) (hnone' : t.hand = none)
    (he : c.redact = c'.redact)
    (hdealt : HoldDealt c (s.step (.message session (some json) c)).1)
    (hdealt' : HoldDealt c' (t.step (.message session (some json) c')).1)
    (heffects : (s.step (.message session (some json) c)).2
      = acked ++ (s.step (.message session (some json) c)).1.broadcastHandStarted c)
    (heffects' : (t.step (.message session (some json) c')).2
      = acked ++ (t.step (.message session (some json) c')).1.broadcastHandStarted c')
    (playerId : String) :
    HeardAlike playerId (s, t)
        (.message session (some json) c, .message session (some json) c') ↔
      (c.deck.cards.take 4 ≠ c'.deck.cards.take 4 →
        ∀ entry ∈ s.playerSessions.entries, s.playerSessions.lookup playerId = some entry.2) := by
  have hmatch : (Event.message session (some json) c).redact
      = (Event.message session (some json) c').redact := congrArg (Event.message session _) he
  have hstate := step_redact_congr hs ht h hmatch
  have hentries : t.playerSessions = s.playerSessions := (congrArg GameSession.playerSessions h).symm
  obtain ⟨hand, hhand⟩ : ∃ hand, (s.step (.message session (some json) c)).1.hand = some hand :=
    hdealt.imp fun _ hh => hh.choose_spec.choose_spec.1
  obtain ⟨hand', hhand', -⟩ := hand_of_redact hstate hhand
  have hpayload := holdDealt_eq_iff hstate hdealt hdealt' hhand hhand'
  have hheard := heard_started hs hnone hhand heffects
  have hheard' := heard_started ht hnone' hhand' heffects'
  rw [hentries] at hheard'
  constructor
  · intro halike hne entry hentry
    by_contra hother
    have hsame := halike entry.2 hother
    simp only [hheard, hheard', List.append_cancel_left_eq] at hsame
    have hcount : (s.playerSessions.entries.map fun e => e.2).count entry.2 ≠ 0 :=
      (List.count_pos_iff.mpr (List.mem_map_of_mem hentry)).ne'
    have hmessage := (List.replicate_right_inj hcount).mp hsame
    exact hne (hpayload.mp (Message.handStarted.inj hmessage))
  · intro hpublic listener hother
    simp only [hheard, hheard']
    by_cases hcards : c.deck.cards.take 4 = c'.deck.cards.take 4
    · rw [hpayload.mpr hcards]
    · have hcount : (s.playerSessions.entries.map fun e => e.2).count listener = 0 := by
        rw [List.count_eq_zero]
        intro hmem
        obtain ⟨entry, hentry, rfl⟩ := List.mem_map.mp hmem
        exact hother (hpublic hcards entry hentry)
      rw [hcount]
      rfl

theorem heardAlike_iff (horder : SeatOrder s.tableManager.table) {e e' : Event}
    (he : e.redact = e'.redact) (playerId : String) :
    HeardAlike playerId (s, t) (e, e') ↔ ¬DealsInPublic playerId (s, t) (e, e') := by
  have hstep := step_redact hs e
  have hstep' := step_redact ht e'
  rw [h, he] at hstep
  have hstate := step_redact_congr hs ht h he
  -- both steps start a hand or none does
  rcases hstep.cases, hstep'.cases with
    ⟨⟨hsame, hstays⟩ | ⟨session, json, c, acked, rfl, hnone, hdealt, heffects, hr⟩,
     ⟨hsame', hstays'⟩ | ⟨session', json', c', acked', rfl, hnone', hdealt', heffects', hr'⟩⟩
  · have heffects : (s.step e).2 = (t.step e').2 :=
      (congrArg Prod.snd (hsame.symm.trans hsame') :)
    refine iff_of_true (fun listener _ => congrArg (heard listener) heffects) ?_
    intro hpublic
    obtain ⟨session, json, c, c', heq, hsecond, -⟩ := hpublic
    obtain ⟨rfl, rfl⟩ := Prod.ext_iff.mp heq
    obtain ⟨hnone, hsome⟩ := (secondJoins_iff hs horder session json c).mp hsecond
    rw [hstays hnone] at hsome
    cases hsome
  · obtain ⟨hand, -, -, hhand, -⟩ := hdealt'
    have hno := none_of_redact hstate (hstays (none_of_redact h.symm hnone'))
    rw [hhand] at hno
    cases hno
  · obtain ⟨hand, -, -, hhand, -⟩ := hdealt
    have hno := none_of_redact hstate.symm (hstays' (none_of_redact h hnone))
    rw [hhand] at hno
    cases hno
  · simp only [Event.redact, Event.message.injEq, Option.some.injEq] at he
    obtain ⟨rfl, rfl, hc⟩ := he
    rw [hr, hc] at hr'
    obtain rfl := List.append_cancel_right hr'
    rw [heardAlike_started hs ht h hnone hnone' hc hdealt hdealt' heffects heffects' playerId]
    have hsome : (s.step (.message session (some json) c)).1.hand.isSome = true := by
      obtain ⟨hand, -, -, hhand, -⟩ := hdealt
      rw [hhand]
      rfl
    have hsecond := (secondJoins_iff hs horder session json c).mpr ⟨hnone, hsome⟩
    constructor
    · intro hall hpublic
      obtain ⟨session', json', c₁, c₁', heq, -, hcards, entry, hentry, hother⟩ := hpublic
      cases heq
      exact hother (hall hcards entry hentry)
    · intro hno hcards entry hentry
      by_contra hother
      exact hno ⟨session, json, c, c', rfl, hsecond, hcards, entry, hentry, hother⟩

end Step

/-! ### Until the hand is over -/

def CompletesHand (s : GameSession × GameSession) (z : Event × Event) : Prop :=
  s.1.hand.isSome = true ∧ (s.1.step z.1).1.hand = none

theorem Moves.second_free {s' : GameSession} {e : Event} (hmove : Moves s e s')
    (hfree : s'.tableManager.table.seat2 = none) : s.tableManager.table.seat2 = none := by
  rcases hmove.table with htable | ⟨_, -, hrests⟩ | ⟨_, _, _, _, _, _, -, -, -, -, -, hseats⟩
  · exact htable ▸ hfree
  · exact hrests.seats.2.symm.trans hfree
  · rcases hseats.seats with ⟨-, -, htwo⟩ | ⟨-, hnone, -⟩
    · exact htwo.symm.trans hfree
    · exact hnone

/-- Before the second seat is taken no hand has been completed. -/
theorem none_completed (config : Config) (zs : List (Event × Event))
    (hfree : ((machine config).twin.run zs).1.tableManager.table.seat2 = none) :
    (machine config).twin.EveryStep (fun s z => ¬CompletesHand s z) zs := by
  induction zs using List.reverseRecOn with
  | nil => exact Machine.everyStep_nil _ _
  | append_singleton zs z ih =>
    have hinv := run_inv config (zs.map Prod.fst)
    rw [Machine.run_concat] at hfree
    have hrun := (machine config).run_twin zs
    have hbefore : ((machine config).twin.run zs).1.tableManager.table.seat2 = none := by
      rw [hrun] at hfree ⊢
      exact (step_moves hinv z.1).second_free hfree
    refine ((machine config).twin.everyStep_concat _ zs z).mpr ⟨ih hbefore, fun hcompletes => ?_⟩
    obtain ⟨hsome, -⟩ := hcompletes
    rw [hrun] at hbefore hsome
    have hno := (hinv.of_free_seat (.inr hbefore)).1
    rw [GameSession.hand, hno] at hsome
    cases hsome

/-- Two runs with the same events from decks that give everybody but the player
the same cards. -/
structure SameButCards (config : Config) (playerId : String) (zs : List (Event × Event)) : Prop where
  events : ∀ z ∈ zs, z.1.redact = z.2.redact
  cards : ∀ pre, pre <+: zs → let s := (machine config).twin.run pre
    ∀ p ∈ s.1.tableManager.players, (s.1.tableManager.heap p).id ≠ playerId →
      (s.1.tableManager.heap p).holeCards = (s.2.tableManager.heap p).holeCards

/-- Until the hand is over the others hear the same in both runs exactly when it
is dealt the same cards or no session but the player's is there. -/
theorem run_heardAlike_iff (config : Config) (playerId : String) {zs : List (Event × Event)}
    (h : SameButCards config playerId zs) :
    (machine config).twin.EveryStepUntil (HeardAlike playerId) CompletesHand zs ↔
      (machine config).twin.EveryStep (fun s z => ¬DealsInPublic playerId s z) zs := by
  refine (machine config).twin.everyStepUntil_iff zs (fun pre z hpre => ?_) fun pre z _ hpublic => ?_
  · have hrun := (machine config).run_twin pre
    have hevents : ∀ x ∈ pre ++ [z], x.1.redact = x.2.redact :=
      fun x hx => h.events x (hpre.subset hx)
    rw [hrun]
    exact heardAlike_iff (run_inv config _) (run_inv config _)
      (run_redact config fun x hx => hevents x (by simp [hx])) (run_seatOrder config _)
      (hevents z (by simp)) playerId
  · obtain ⟨_, _, _, _, -, hsecond, -⟩ := not_not.mp hpublic
    obtain ⟨_, _, _, -, -, -, -, -, htwo⟩ := hsecond
    exact none_completed config pre htwo

/-- The first two cards stay, the others are turned over. -/
def turnedOver : Shuffle Card where
  apply l := l.take 2 ++ (l.drop 2).reverse
  perm l := by
    have hperm := (List.reverse_perm (l.drop 2)).append_left (l.take 2)
    rwa [List.take_append_drop] at hperm

/-- Two bots join; Bob gets other cards in the second run. -/
def twoDecks : List (Event × Event) :=
  (bothJoined.take 3).map (fun e => (e, e)) ++
    [(sent 1 (.join "Bob"), .message 1 (some (Client.Message.join "Bob").toJson)
      { Choices.plain "1" with shuffled := turnedOver })]

theorem sameButCards_twoDecks : SameButCards ⟨30000, 60000⟩ "bob" twoDecks where
  events := by
    intro z hz
    rcases List.mem_append.mp hz with hz | hz
    · obtain ⟨e, -, rfl⟩ := List.mem_map.mp hz
      rfl
    · rw [List.mem_singleton.mp hz]
      rfl
  cards := by
    intro pre hpre
    have hlen : pre.length ≤ 4 := hpre.length_le
    rw [List.prefix_iff_eq_take.mp hpre]
    generalize pre.length = n at hlen
    obtain rfl | rfl | rfl | rfl | rfl : n = 0 ∨ n = 1 ∨ n = 2 ∨ n = 3 ∨ n = 4 := by omega
    all_goals decide +kernel

/-- Alice, who has session 0, is shown Bob's cards. -/
theorem heardAlike_twoDecks : SameButCards ⟨30000, 60000⟩ "bob" twoDecks ∧
    ¬(machine ⟨30000, 60000⟩).twin.EveryStepUntil (HeardAlike "bob") CompletesHand twoDecks := by
  refine ⟨sameButCards_twoDecks, fun h => ?_⟩
  have halike := h ((bothJoined.take 3).map fun e => (e, e)) _ (List.prefix_refl _)
    (none_completed _ _ (by decide +kernel)) 0 (by decide +kernel)
  exact absurd halike (by decide +kernel)

theorem run_heardAlike_twoDecks :
    (machine ⟨30000, 60000⟩).twin.EveryStepUntil (HeardAlike "bob") CompletesHand twoDecks ↔
      (machine ⟨30000, 60000⟩).twin.EveryStep (fun s z => ¬DealsInPublic "bob" s z) twoDecks :=
  run_heardAlike_iff ⟨30000, 60000⟩ "bob" sameButCards_twoDecks

end GameSession
end HeadsUp.Server
