import HeadsUp.Lib.Monitor
import HeadsUp.Server.Answers
import HeadsUp.Server.Waiting

/-!
# One hand

Seats are never given up and a hand starts only when the second one is taken, so
a server plays one hand. This module has what it says of it to its clients, and
that nothing follows.
-/

namespace HeadsUp.Server
open HeadsUp.Core HeadsUp.Common HeadsUp.Lib

/-! ### What is said of a hand -/

inductive Talk where
  | before
  | dealt (handId : String) (told : List SessionId)
  | during (handId : String)
  | after (handId : String) (told : List SessionId)
  deriving DecidableEq, Repr

namespace Talk

/-- Nobody is told twice that a hand starts or that it is over. -/
def hearMessage (listener : SessionId) : Talk → Message → Option Talk
  | .before, .handStarted m => some (.dealt m.handId [listener])
  | .dealt id told, .handStarted m =>
    if m.handId = id ∧ listener ∉ told then some (.dealt id (listener :: told)) else none
  | .dealt id _, .actionApplied m => if m.handId = id then some (.during id) else none
  | .during id, .actionApplied m => if m.handId = id then some (.during id) else none
  | .during id, .actionRequest m => if m.handId = id then some (.during id) else none
  | .during id, .handCompleted m => if m.handId = id then some (.after id [listener]) else none
  | .after id told, .handCompleted m =>
    if m.handId = id ∧ listener ∉ told then some (.after id (listener :: told)) else none
  | _, .handStarted _ => none
  | _, .actionApplied _ => none
  | _, .actionRequest _ => none
  | _, .handCompleted _ => none
  | talk, _ => some talk

def hear (talk : Talk) : Effect → Option Talk
  | .send listener message => talk.hearMessage listener message
  | _ => some talk

def monitor : Monitor Talk Effect := ⟨.before, hear⟩

/-- What has been said while the hand is in progress. -/
def Open (handId : String) (talk : Talk) : Prop :=
  (∃ told, talk = .dealt handId told) ∨ talk = .during handId

end Talk

/-- The message is about a hand. -/
def Message.OfHand : Message → Prop
  | .handStarted _ => True
  | .actionApplied _ => True
  | .actionRequest _ => True
  | .handCompleted _ => True
  | _ => False

theorem Talk.hear_other {message : Message} (h : ¬message.OfHand) (talk : Talk)
    (session : SessionId) : Talk.monitor.hear talk (.send session message) = some talk := by
  cases message with
  | handStarted | actionApplied | actionRequest | handCompleted => exact absurd trivial h
  | _ => cases talk <;> rfl

/-- No message in it is about a hand. -/
def NoHandTalk (effects : List Effect) : Prop :=
  ∀ session message, .send session message ∈ effects → ¬message.OfHand

theorem NoHandTalk.hears {effects : List Effect} (h : NoHandTalk effects) (talk : Talk) :
    Talk.monitor.hearAll talk effects = some talk := by
  refine Monitor.hearAll_ignored fun e he => ?_
  cases e with
  | send session message => exact Talk.hear_other (h session message he) talk session
  | _ => rfl

namespace GameSession
variable {s s' : GameSession} {session listener : SessionId} {c : Choices} {json : Json}

theorem broadcastJson_ne_nil (h : s.playerSessions.entries ≠ []) (c : Choices)
    (message : Message) : s.broadcastJson c message ≠ [] := by
  obtain ⟨entry, hentry⟩ := List.exists_mem_of_ne_nil _ h
  exact List.ne_nil_of_mem ((mem_broadcastJson c message _).mpr ⟨entry, hentry, rfl⟩)

/-- A broadcast is heard once and repeated. -/
theorem hearAll_broadcast {θ : Type*} {m : Monitor θ Effect} {t t' : θ} {message : Message}
    (hfirst : ∀ listener, m.hear t (.send listener message) = some t')
    (hrest : ∀ listener, m.hear t' (.send listener message) = some t')
    (hne : s.playerSessions.entries ≠ []) (c : Choices) :
    m.hearAll t (s.broadcastJson c message) = some t' := by
  have hsend : ∀ e ∈ s.broadcastJson c message, ∃ listener, e = .send listener message := by
    intro e he
    obtain ⟨entry, -, rfl⟩ := (mem_broadcastJson c message e).mp he
    exact ⟨_, rfl⟩
  have hfirst' : ∀ e ∈ s.broadcastJson c message, m.hear t e = some t' := by
    intro e he
    obtain ⟨listener, rfl⟩ := hsend e he
    exact hfirst listener
  have hrest' : ∀ e ∈ s.broadcastJson c message, m.hear t' e = some t' := by
    intro e he
    obtain ⟨listener, rfl⟩ := hsend e he
    exact hrest listener
  rw [Monitor.hearAll_repeated hfirst' hrest', if_neg (broadcastJson_ne_nil hne c message)]

section Hears
variable (hinverse : Inverse s.playerSessions s.sessionToPlayer)
  (hne : s.playerSessions.entries ≠ [])
include hne

include hinverse in
/-- A broadcast goes to every session once. -/
theorem hearAll_told {talk : Talk} {told : List SessionId → Talk} {message : Message}
    (hfirst : ∀ l, talk.hearMessage l message = some (told [l]))
    (hrest : ∀ l ls, l ∉ ls → (told ls).hearMessage l message = some (told (l :: ls)))
    (c : Choices) :
    ∃ ls, Talk.monitor.hearAll talk (s.broadcastJson c message) = some (told ls) := by
  have hsome := broadcastJson_ne_nil hne c message
  have hnodup : (c.sessions.apply (s.playerSessions.entries.map fun e => e.2)).Nodup :=
    (c.sessions.perm _).nodup_iff.mpr hinverse.values_nodup
  rw [broadcastJson] at hsome ⊢
  generalize c.sessions.apply (s.playerSessions.entries.map fun e => e.2) = listeners at *
  cases listeners with
  | nil => exact absurd rfl hsome
  | cons l rest =>
    obtain ⟨hl, hrest'⟩ := List.nodup_cons.mp hnodup
    have hfirst' : Talk.monitor.hear talk (.send l message) = some (told [l]) := hfirst l
    refine ⟨rest.reverse ++ [l], ?_⟩
    rw [List.map_cons, Monitor.hearAll_cons, hfirst', Option.bind_some]
    refine Monitor.hearAll_once (fun k ls => hrest k ls) hrest' ?_
    intro k hk hmem
    exact hl (List.mem_singleton.mp hmem ▸ hk)

theorem hears_applied {handId : String} {talk : Talk} (htalk : talk.Open handId)
    {applied : ActionApplied} (happlied : applied.handId = handId) {request : ActionRequest}
    (hrequest : request.handId = handId) (c : Choices) (turn : String) :
    Talk.monitor.hearAll talk (s.broadcastJson c (.actionApplied applied) ++
      (s.playerSessions.lookup turn).toList.map fun listener =>
        .send listener (.actionRequest request)) = some (.during handId) := by
  have hfirst : Talk.monitor.hearAll talk (s.broadcastJson c (.actionApplied applied))
      = some (.during handId) := by
    refine hearAll_broadcast (fun l => ?_) (fun l => ?_) hne c
    · rcases htalk with ⟨told, rfl⟩ | rfl <;>
        simp [Talk.monitor, Talk.hear, Talk.hearMessage, happlied]
    · simp [Talk.monitor, Talk.hear, Talk.hearMessage, happlied]
  rw [Monitor.hearAll_append_of hfirst]
  refine Monitor.hearAll_ignored fun e he => ?_
  obtain ⟨listener, -, rfl⟩ := List.mem_map.mp he
  simp [Talk.monitor, Talk.hear, Talk.hearMessage, hrequest]

include hinverse in
theorem ActionSent.hears {heap : Heap} {hand : Hand} {effects : List Effect}
    (hsent : ActionSent s c heap hand effects) {talk : Talk} (htalk : talk.Open hand.id) :
    ∃ talk', Talk.monitor.hearAll talk effects = some talk' ∧
      (1 < (activePlayers hand).length → talk'.Open hand.id) := by
  obtain ⟨applied, other, request, tail, rfl, -, ⟨happlied, hrequest⟩, htail⟩ := hsent.sent
  have hfirst := hears_applied hne htalk happlied hrequest c (heap other).id
  rw [Monitor.hearAll_append_of hfirst]
  cases htail with
  | goesOn => exact ⟨_, rfl, fun _ => .inr rfl⟩
  | @ends completed _ hfew hcompleted =>
    obtain ⟨told, hlast⟩ : ∃ told, Talk.monitor.hearAll (.during hand.id)
        (s.broadcastJson c (.handCompleted completed)) = some (.after hand.id told) :=
      hearAll_told hinverse hne (fun l => by simp [Talk.hearMessage, hcompleted])
        (fun l ls hl => by simp [Talk.hearMessage, hcompleted, hl]) c
    refine ⟨.after hand.id told, ?_, fun hmany => absurd hfew (by omega)⟩
    rw [Monitor.hearAll_append_of hlast]
    rfl

end Hears

/-! ### What a step says -/

/-- Where the server is with its hand, and what it has said of it. -/
inductive Stage (s : GameSession) : Talk → Prop
  | waits (hnone : s.hand = none) (hfree : s.tableManager.table.seat2 = none) : Stage s .before
  | plays {hand : Hand} {talk : Talk} (hhand : s.hand = some hand) (htalk : talk.Open hand.id) :
      Stage s talk
  | finished {talk : Talk} (hnone : s.hand = none)
      (hfull : s.tableManager.table.seat2.isSome = true) : Stage s talk

/-- Whoever acts or joins is there to hear of it. -/
theorem entries_ne_nil (hinverse : Inverse s.playerSessions s.sessionToPlayer) {playerId : String}
    (hsession : s.sessionToPlayer.lookup session = some playerId) :
    s.playerSessions.entries ≠ [] := by
  intro hnil
  have hmem := AList.mem_lookup_iff.mp ((hinverse _ _).mpr hsession)
  rw [hnil] at hmem
  cases hmem

theorem Acts.talks (h : TableInv Unfolded s.tableManager s.nextRef)
    (hinverse : Inverse s.playerSessions s.sessionToPlayer) {action : String} {amount : ℤ}
    {hand : Hand} {player : PlayerRef} (hacts : Acts s session json c action amount player hand)
    {talk : Talk} (htalk : talk.Open hand.id) :
    ∃ talk', Talk.monitor.hearAll talk (s.step (.message session (some json) c)).2 = some talk' ∧
      Stage (s.step (.message session (some json) c)).1 talk' := by
  obtain ⟨heap, after, happly, hsent⟩ := step_acts h hacts
  obtain ⟨playerId, hsession, hget⟩ := hacts.registered
  obtain ⟨heap', after', happly', hrests, hafter⟩ :=
    step_act h hacts.current hacts.message hsession hget hacts.valid (c := c)
  obtain ⟨rfl, rfl⟩ : heap = heap' ∧ after = after' := by
    have hsame := happly.symm.trans happly'
    simpa using hsame
  obtain ⟨talk', hheard, hopen⟩ :=
    hsent.hears hinverse (entries_ne_nil hinverse hsession) ((applied_id happly).symm ▸ htalk)
  refine ⟨talk', hheard, ?_⟩
  by_cases hfew : (activePlayers after).length ≤ 1
  · rw [if_pos hfew] at hafter
    have htwo := (h.both (Option.isSome_iff_exists.mpr ⟨hand, hacts.current⟩)).2
    exact .finished hafter (hrests.seats.2 ▸ htwo)
  · rw [if_neg hfew] at hafter
    exact .plays hafter (hopen (by omega))

theorem SecondJoins.talks (h : TableInv Unfolded s.tableManager s.nextRef)
    (hinverse : Inverse s.playerSessions s.sessionToPlayer)
    (hsecond : SecondJoins s session json) (c : Choices) :
    ∃ talk, Talk.monitor.hearAll .before (s.step (.message session (some json) c)).2 = some talk ∧
      Stage (s.step (.message session (some json) c)).1 talk := by
  obtain ⟨-, -, playerId, -, -, hstarts, hsame, heffects⟩ := step_begins h hsecond c
  obtain ⟨_, _, _, -, -, hsession, -⟩ := hsecond
  obtain ⟨hand, hhand⟩ := Option.isSome_iff_exists.mp hstarts
  rw [broadcastHandStarted_eq hhand, broadcastJson_congr hsame] at heffects
  have hquiet : NoHandTalk [.seated s.nextRef, .send session (.joinAck playerId seat2)] := by
    intro listener message hmem
    obtain ⟨-, rfl⟩ := Effect.send.inj (by simpa using hmem)
    exact id
  obtain ⟨told, htold⟩ : ∃ told, Talk.monitor.hearAll .before
      (s.broadcastJson c (.handStarted (startedPayload _ hand))) = some (.dealt hand.id told) :=
    hearAll_told hinverse (entries_ne_nil hinverse hsession)
      (fun l => by simp [Talk.hearMessage, startedPayload])
      (fun l ls hl => by simp [Talk.hearMessage, startedPayload, hl]) c
  refine ⟨.dealt hand.id told, ?_, .plays hhand (.inl ⟨told, rfl⟩)⟩
  rw [heffects, Monitor.hearAll_append_of (hquiet.hears .before), htold]

/-! ### Steps without a word about the hand -/

/-- The second seat is taken last. -/
theorem Seats.free {playerId : String} (hseats : Seats s s' playerId)
    (horder : SeatOrder s.tableManager.table) : s.tableManager.table.seat2 = none := by
  rcases hseats.seats with ⟨hone, -⟩ | ⟨-, hfree, -⟩
  · exact horder.first hone
  · exact hfree

theorem broadcastJson_quiet {message : Message} (h : ¬message.OfHand) (c : Choices) :
    NoHandTalk (s.broadcastJson c message) := by
  intro listener other hmem
  rwa [broadcastJson_send hmem]

theorem step_quiet (horder : SeatOrder s.tableManager.table) {e : Event}
    (hacts : ∀ session json c action amount player hand, e = .message session (some json) c →
      ¬Acts s session json c action amount player hand)
    (hstarts : ∀ session json c, e = .message session (some json) c → ¬SecondJoins s session json) :
    NoHandTalk (s.step e).2 := by
  by_cases ha : Announces s e
  · cases ha with
    | acts h => exact absurd h (hacts _ _ _ _ _ _ _ rfl)
    | starts h => exact absurd h (hstarts _ _ _ rfl)
    | @takes session json c _ provided _ hjoin habsent hfree =>
      obtain ⟨seat, heffects⟩ := step_takes hjoin habsent hfree c
      rw [heffects]
      intro listener message hmem
      rcases List.mem_append.mp hmem with hmem | hmem
      · exact broadcastJson_quiet id c listener message hmem
      · obtain ⟨-, rfl⟩ := Effect.send.inj (List.mem_singleton.mp hmem)
        exact id
    | leaves hsession hget =>
      rw [step_leaves hsession hget]
      exact broadcastJson_quiet id _
    | removes hready hget =>
      rw [(removalRuns hready hget _).2]
      exact broadcastJson_quiet id _
  · intro listener message hmem
    rcases message_of_quiet horder ha hmem with ⟨playerId, -, rfl⟩ | ⟨text, c, -, hreplies⟩
    · exact id
    · cases hreplies <;> exact id

theorem Stage.quiet (h : TableInv Unfolded s.tableManager s.nextRef)
    (horder : SeatOrder s.tableManager.table) {talk : Talk} (hstage : Stage s talk) {e : Event}
    (hmove : Moves s e s')
    (hacts : ∀ session json c action amount player hand, e = .message session (some json) c →
      ¬Acts s session json c action amount player hand)
    (hstarts : s.hand = none → s'.hand = none) : Stage s' talk := by
  cases hstage with
  | plays hhand htalk => exact .plays (hmove.keeps h hhand hacts).1 htalk
  | waits hnone hfree =>
    have hnone' := hstarts hnone
    cases hfree' : s'.tableManager.table.seat2 with
    | none => exact .waits hnone' hfree'
    | some p => exact .finished hnone' (by simp [hfree'])
  | finished hnone hfull =>
    refine .finished (hstarts hnone) ?_
    rcases hmove.table with htable | ⟨hand, hhand, -⟩ | ⟨_, _, _, _, _, _, -, -, -, -, -, hseats⟩
    · rwa [htable]
    · cases hnone.symm.trans hhand
    · rw [hseats.free horder] at hfull
      cases hfull

theorem Stage.step (h : TableInv Unfolded s.tableManager s.nextRef)
    (horder : SeatOrder s.tableManager.table)
    (hinverse : Inverse s.playerSessions s.sessionToPlayer) {talk : Talk} (hstage : Stage s talk)
    (e : Event) :
    ∃ talk', Talk.monitor.hearAll talk (s.step e).2 = some talk' ∧ Stage (s.step e).1 talk' := by
  by_cases hacts : ∃ session json c action amount player hand,
      e = .message session (some json) c ∧ Acts s session json c action amount player hand
  · obtain ⟨_, _, _, _, _, _, hand, rfl, hacts⟩ := hacts
    cases hstage with
    | plays hhand htalk =>
      obtain rfl := Option.some.inj (hhand.symm.trans hacts.current)
      exact hacts.talks h hinverse htalk
    | waits hnone => cases hnone.symm.trans hacts.current
    | finished hnone => cases hnone.symm.trans hacts.current
  · have hno : ∀ session json c action amount player hand, e = .message session (some json) c →
        ¬Acts s session json c action amount player hand :=
      fun _ _ _ _ _ _ _ he ha => hacts ⟨_, _, _, _, _, _, _, he, ha⟩
    by_cases hstarts : ∃ session json c, e = .message session (some json) c ∧
        SecondJoins s session json
    · obtain ⟨_, _, c, rfl, hsecond⟩ := hstarts
      have hfree := hsecond.choose_spec.choose_spec.choose_spec.2.2.2.2.2
      obtain ⟨hnone, -⟩ := h.of_free_seat (.inr hfree)
      cases hstage with
      | waits => exact hsecond.talks h hinverse c
      | plays hhand => cases hnone.symm.trans hhand
      | finished _ hfull =>
        rw [hfree] at hfull
        cases hfull
    · have hquiet := step_quiet horder hno fun _ _ _ he hs => hstarts ⟨_, _, _, he, hs⟩
      refine ⟨talk, hquiet.hears talk, hstage.quiet h horder (step_moves h e) hno fun hnone => ?_⟩
      by_contra hsome
      obtain ⟨session, json, c, _, _, _, rfl, -⟩ :=
        (step_moves h e).starts hnone (Option.isSome_iff_ne_none.mpr hsome)
      exact hstarts ⟨session, json, c, rfl, (secondJoins_iff h horder session json c).mpr
        ⟨hnone, Option.isSome_iff_ne_none.mpr hsome⟩⟩

/-! ### The table after the hand -/

/-- Both seats are taken and no hand is in progress. -/
structure Over (s : GameSession) : Prop where
  noHand : s.hand = none
  full : s.tableManager.table.seat2.isSome = true

def Starts (s : GameSession) (e : Event) : Prop :=
  s.hand = none ∧ (s.step e).1.hand.isSome = true

theorem Moves.keeps_seat2 {e : Event} (hmove : Moves s e s')
    (hfull : s.tableManager.table.seat2.isSome = true)
    (horder : SeatOrder s.tableManager.table) : s'.tableManager.table.seat2.isSome = true := by
  rcases hmove.table with htable | ⟨_, -, hrests⟩ | ⟨_, _, _, _, _, _, -, -, -, -, -, hseats⟩
  · rwa [htable]
  · rwa [hrests.seats.2]
  · rw [hseats.free horder] at hfull
    cases hfull

theorem Over.moves (h : Over s) (horder : SeatOrder s.tableManager.table) {e : Event}
    (hmove : Moves s e s') : Over s' ∧ s'.tableManager.table = s.tableManager.table ∧
      s'.tableManager.players = s.tableManager.players := by
  have htable : s'.tableManager.table = s.tableManager.table := by
    rcases hmove.table with htable | ⟨hand, hhand, -⟩ | ⟨_, _, _, _, _, _, -, -, -, -, -, hseats⟩
    · exact htable
    · cases h.noHand.symm.trans hhand
    · have hfull := h.full
      rw [hseats.free horder] at hfull
      cases hfull
  refine ⟨⟨?_, ?_⟩, htable, ?_⟩
  · rw [GameSession.hand, htable]
    exact h.noHand
  · rw [htable]
    exact h.full
  · rcases hmove.ids with ⟨hplayers, -⟩ | ⟨_, _, _, _, _, playerId, -, -, -, hseats⟩
    · exact hplayers
    · have hfull := h.full
      rw [hseats.free horder] at hfull
      cases hfull

theorem Over.quiet (h : Over s) (horder : SeatOrder s.tableManager.table) (e : Event) :
    NoHandTalk (s.step e).2 := by
  refine step_quiet horder ?_ ?_
  · intro session json c action amount player hand _ hacts
    cases h.noHand.symm.trans hacts.current
  · intro session json c _ hsecond
    have hfull := h.full
    rw [hsecond.choose_spec.choose_spec.choose_spec.2.2.2.2.2] at hfull
    cases hfull

/-! ### Runs -/

theorem run_talk (config : Config) {es : List Event} (hsessions : FreshSessions es)
    (hids : FreshIds es) : ∃ talk,
    Talk.monitor.hearAll .before ((machine config).trace es) = some talk ∧
      Stage ((machine config).run es) talk :=
  Monitor.hears_run_of_ok (m := Talk.monitor) (machine config) (R := Stage)
    (fun es => FreshSessions es ∧ FreshIds es)
    (fun es e ⟨hsessions, hids⟩ => ⟨hsessions.of_prefix (List.prefix_append es [e]),
      hids.of_prefix (List.prefix_append es [e])⟩)
    (.waits rfl rfl)
    (fun es _ e ⟨hsessions, hids⟩ hstage =>
      hstage.step (run_inv config es) (run_seatOrder config es)
        (run_paired config (hsessions.of_prefix (List.prefix_append es [e]))
          (hids.of_prefix (List.prefix_append es [e]))).inverse e)
    es ⟨hsessions, hids⟩

/-- All that is said of a hand in a run is said of the same one, and in order: it is
announced, then come actions and requests, and its end is the last. Nobody hears twice
that it starts or ends. While it is in progress it is the one announced. -/
theorem hand_talk (config : Config) {es : List Event} (hsessions : FreshSessions es)
    (hids : FreshIds es) : ∃ talk,
    Talk.monitor.hearAll .before ((machine config).trace es) = some talk ∧
      ∀ hand, ((machine config).run es).hand = some hand → talk.Open hand.id := by
  obtain ⟨talk, htalk, hstage⟩ := run_talk config hsessions hids
  refine ⟨talk, htalk, fun hand hhand => ?_⟩
  cases hstage with
  | waits hnone => cases hnone.symm.trans hhand
  | plays hhand' hopen =>
    obtain rfl := Option.some.inj (hhand.symm.trans hhand')
    exact hopen
  | finished hnone => cases hnone.symm.trans hhand

theorem hand_talk_bobFolds : ∃ talk,
    Talk.monitor.hearAll .before ((machine ⟨30000, 60000⟩).trace bobFolds) = some talk ∧
      ∀ hand, ((machine ⟨30000, 60000⟩).run bobFolds).hand = some hand → talk.Open hand.id :=
  hand_talk ⟨30000, 60000⟩ (by decide) (by decide)

theorem run_over (config : Config) (pre later : List Event)
    (hover : Over ((machine config).run pre)) :
    Over ((machine config).run (pre ++ later)) ∧
      ((machine config).run (pre ++ later)).tableManager.table
        = ((machine config).run pre).tableManager.table ∧
      ((machine config).run (pre ++ later)).tableManager.players
        = ((machine config).run pre).tableManager.players ∧
      NoHandTalk ((machine config).traceFrom ((machine config).run pre) later) := by
  induction later using List.reverseRecOn with
  | nil =>
    rw [List.append_nil]
    exact ⟨hover, rfl, rfl, by simp [NoHandTalk, Machine.traceFrom]⟩
  | append_singleton later e ih =>
    obtain ⟨hover', htable, hplayers, hquiet⟩ := ih
    have horder := run_seatOrder config (pre ++ later)
    obtain ⟨hover'', htable', hplayers'⟩ := hover'.moves horder (run_moves config (pre ++ later) e)
    rw [← List.append_assoc, Machine.run_concat]
    refine ⟨hover'', htable'.trans htable, hplayers'.trans hplayers, ?_⟩
    rw [Machine.traceFrom_concat, ← Machine.run_append]
    intro session message hmem
    rcases List.mem_append.mp hmem with hmem | hmem
    · exact hquiet session message hmem
    · exact hover'.quiet horder e session message hmem

theorem run_full (config : Config) {pre es : List Event} (hpre : pre <+: es)
    (hfull : ((machine config).run pre).tableManager.table.seat2.isSome = true) :
    ((machine config).run es).tableManager.table.seat2.isSome = true := by
  obtain ⟨later, rfl⟩ := hpre
  induction later using List.reverseRecOn with
  | nil => rwa [List.append_nil]
  | append_singleton later e ih =>
    rw [← List.append_assoc, Machine.run_concat]
    exact (run_moves config (pre ++ later) e).keeps_seat2 ih (run_seatOrder config _)

theorem Starts.seats (h : TableInv Unfolded s.tableManager s.nextRef)
    (horder : SeatOrder s.tableManager.table) {e : Event} (hstarts : Starts s e) :
    s.tableManager.table.seat2 = none ∧
      (s.step e).1.tableManager.table.seat2.isSome = true := by
  obtain ⟨hnone, hsome⟩ := hstarts
  obtain ⟨_, _, _, _, _, _, -, -, -, -, -, hseats⟩ := (step_moves h e).starts hnone hsome
  have hfull := (hseats.hand _ (Option.eq_some_of_isSome hsome)).1
  exact ⟨(hseats.second horder hfull).2.1, hfull⟩

/-- A run starts at most one hand, and once it has ended nothing happens at the
table any more and nobody hears of a hand again. -/
theorem one_hand (config : Config) (es : List Event) :
    (∀ pre e pre' e', pre ++ [e] <+: es → pre' ++ [e'] <+: es →
      Starts ((machine config).run pre) e → Starts ((machine config).run pre') e' → pre = pre') ∧
    ∀ pre later, es = pre ++ later → Over ((machine config).run pre) →
      ((machine config).run es).tableManager.table
          = ((machine config).run pre).tableManager.table ∧
        ((machine config).run es).tableManager.players
          = ((machine config).run pre).tableManager.players ∧
        NoHandTalk ((machine config).traceFrom ((machine config).run pre) later) := by
  have once : ∀ {pre e pre'}, pre ++ [e] <+: pre' → Starts ((machine config).run pre) e →
      ((machine config).run pre').tableManager.table.seat2.isSome = true := by
    intro pre e pre' hpre hstarts
    have hfull := (hstarts.seats (run_inv config pre) (run_seatOrder config pre)).2
    refine run_full config hpre ?_
    rw [Machine.run_concat]
    exact hfull
  have hlast : ∀ {pre e pre' e'}, pre ++ [e] <+: es → pre' ++ [e'] <+: es →
      Starts ((machine config).run pre) e → Starts ((machine config).run pre') e' →
      ¬pre.length < pre'.length := by
    intro pre e pre' e' hpre hpre' hstarts hstarts' hlt
    have hshort : pre ++ [e] <+: pre' :=
      List.prefix_of_prefix_length_le hpre ((List.prefix_append _ _).trans hpre')
        (by rw [List.length_append, List.length_singleton]; omega)
    have hfree := (hstarts'.seats (run_inv config pre') (run_seatOrder config pre')).1
    have hfull := once hshort hstarts
    rw [hfree] at hfull
    cases hfull
  constructor
  · intro pre e pre' e' hpre hpre' hstarts hstarts'
    have hle := hlast hpre hpre' hstarts hstarts'
    have hge := hlast hpre' hpre hstarts' hstarts
    have hlen : pre.length = pre'.length := by omega
    exact (List.prefix_of_prefix_length_le ((List.prefix_append _ _).trans hpre)
      ((List.prefix_append _ _).trans hpre') hlen.le).eq_of_length hlen
  · intro pre later hes hover
    subst hes
    obtain ⟨-, htable, hplayers, hquiet⟩ := run_over config pre later hover
    exact ⟨htable, hplayers, hquiet⟩

end GameSession
end HeadsUp.Server
