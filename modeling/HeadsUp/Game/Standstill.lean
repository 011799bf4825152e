import HeadsUp.Game.Joining
import Mathlib.Algebra.BigOperators.Fin

/-!
# Two bots at a standstill

Nothing asks a bot to act, so all there is to do is to connect, to join and to
read what the server says of it: twelve steps, whatever their order. This module
counts the steps that are left.
-/

namespace HeadsUp.Game
open HeadsUp.Core HeadsUp.Common HeadsUp.Lib HeadsUp.Server HeadsUp.Server.GameSession

/-! ### How far a bot has come -/

/-- What a bot that has its seat is still to read. -/
inductive Reading : Client.Phase → List Server.Message → Prop
  | ack (playerId : String) (seat : ℤ) (started : List HandStarted) :
      Reading .awaitsJoinAck (.joinAck playerId seat :: started.map .handStarted)
  | game (started : List HandStarted) : Reading .playing (started.map .handStarted)

theorem Reading.append {phase : Client.Phase} {messages : List Server.Message}
    (h : Reading phase messages) (started : List HandStarted) :
    Reading phase (messages ++ started.map .handStarted) := by
  cases h with
  | ack playerId seat earlier =>
    have hack := Reading.ack playerId seat (earlier ++ started)
    rwa [List.map_append] at hack
  | game earlier =>
    have hgame := Reading.game (earlier ++ started)
    rwa [List.map_append] at hgame

theorem Reading.done {phase : Client.Phase} (h : Reading phase []) : phase = .playing := by
  generalize hnil : ([] : List Server.Message) = messages at h
  cases h with
  | ack => cases hnil
  | game => rfl

inductive Stage (g : BotGame) (name : String) (i : Bot) : Prop
  | away (hconnected : g.connected i = false) (hclient : g.bots i = .new name)
      (htoBot : g.toBot i = []) (hwriting : g.writing i = []) (htoServer : g.toServer i = [])
      (hsession : g.server.sessionToPlayer.lookup i.val = none)
  | welcomed {playerId : String} (hconnected : g.connected i = true)
      (hclient : g.bots i = .new name) (htoBot : g.toBot i = [.welcome playerId])
      (hwriting : g.writing i = []) (htoServer : g.toServer i = [])
      (hsession : g.server.sessionToPlayer.lookup i.val = some playerId)
      (hnew : g.server.tableManager.getPlayer playerId = none)
  | joins {playerId : String} (hconnected : g.connected i = true)
      (hclient : (g.bots i).phase = .awaitsJoinAck) (htoBot : g.toBot i = [])
      (hjoin : g.writing i = [.join name] ∧ g.toServer i = [] ∨
        g.writing i = [] ∧ g.toServer i = [.join name])
      (hsession : g.server.sessionToPlayer.lookup i.val = some playerId)
      (hnew : g.server.tableManager.getPlayer playerId = none)
  | sits {playerId : String} (hconnected : g.connected i = true)
      (hreading : Reading (g.bots i).phase (g.toBot i)) (hwriting : g.writing i = [])
      (htoServer : g.toServer i = [])
      (hsession : g.server.sessionToPlayer.lookup i.val = some playerId)
      (hseat : g.server.tableManager.getPlayer playerId ≠ none)

/-- No id is given to both. -/
def DistinctIds (es : List GameEvent) : Prop :=
  ∀ i j playerId, .connects i playerId ∈ es → .connects j playerId ∈ es → i = j

structure Course (names : Bot → String) (es : List GameEvent) (g : BotGame) : Prop where
  table : TableInv Unfolded g.server.tableManager g.server.nextRef
  starts : HandStarts g.server
  order : SeatOrder g.server.tableManager.table
  inverse : Inverse g.server.playerSessions g.server.sessionToPlayer
  sessions : ∀ session playerId, g.server.sessionToPlayer.lookup session = some playerId →
    ∃ i : Bot, session = i.val ∧ .connects i playerId ∈ es
  players : ∀ p ∈ g.server.tableManager.players, ∃ i : Bot,
    g.server.sessionToPlayer.lookup i.val = some (g.server.tableManager.heap p).id
  stage : ∀ i, Stage g (names i) i

/-- What a message will have its reader do. -/
def workOf : Server.Message → ℕ
  | .welcome _ => 4
  | _ => 1

def work (g : BotGame) (i : Bot) : ℕ :=
  (if g.connected i = true then 0 else 5) + ((g.toBot i).map workOf).sum +
    3 * (g.writing i).length + 2 * (g.toServer i).length

/-- The steps that are left: a hand that starts is to be read of by both. -/
def workLeft (g : BotGame) : ℕ :=
  (∑ i, work g i) + if g.server.hand.isSome = true then 0 else 2

theorem two_bots (i : Bot) : ∃ j, j ≠ i ∧ (∀ k, k = i ∨ k = j) ∧
    ∀ f : Bot → ℕ, ∑ k, f k = f i + f j := by
  revert i
  refine Fin.forall_fin_two.mpr ⟨?_, ?_⟩
  · exact ⟨1, by decide, by decide, Fin.sum_univ_two⟩
  · exact ⟨0, by decide, by decide, fun f => (Fin.sum_univ_two f).trans (add_comm _ _)⟩

variable {names : Bot → String} {es : List GameEvent} {g g' : BotGame} {i j : Bot}

/-- A bot whose part stays as it is. -/
structure SamePart (g g' : BotGame) (j : Bot) : Prop where
  connected : g'.connected j = g.connected j
  bots : g'.bots j = g.bots j
  toBot : g'.toBot j = g.toBot j
  writing : g'.writing j = g.writing j
  toServer : g'.toServer j = g.toServer j

theorem SamePart.work_eq (h : SamePart g g' j) : work g' j = work g j := by
  rw [work, work, h.connected, h.toBot, h.writing, h.toServer]

theorem Stage.congr {name : String} (h : Stage g name j) (hsame : SamePart g g' j)
    (hsession : g'.server.sessionToPlayer.lookup j.val = g.server.sessionToPlayer.lookup j.val)
    (hplayer : ∀ playerId, g.server.sessionToPlayer.lookup j.val = some playerId →
      (g'.server.tableManager.getPlayer playerId = none ↔
        g.server.tableManager.getPlayer playerId = none)) : Stage g' name j := by
  cases h with
  | away hconnected hclient htoBot hwriting htoServer hnone =>
    exact .away (hsame.connected.trans hconnected) (hsame.bots.trans hclient)
      (hsame.toBot.trans htoBot) (hsame.writing.trans hwriting) (hsame.toServer.trans htoServer)
      (hsession.trans hnone)
  | welcomed hconnected hclient htoBot hwriting htoServer hsome hnew =>
    exact .welcomed (hsame.connected.trans hconnected) (hsame.bots.trans hclient)
      (hsame.toBot.trans htoBot) (hsame.writing.trans hwriting) (hsame.toServer.trans htoServer)
      (hsession.trans hsome) ((hplayer _ hsome).mpr hnew)
  | joins hconnected hclient htoBot hjoin hsome hnew =>
    refine .joins (hsame.connected.trans hconnected) (hsame.bots ▸ hclient)
      (hsame.toBot.trans htoBot) ?_ (hsession.trans hsome) ((hplayer _ hsome).mpr hnew)
    rw [hsame.writing, hsame.toServer]
    exact hjoin
  | sits hconnected hreading hwriting htoServer hsome hseat =>
    refine .sits (hsame.connected.trans hconnected) ?_ (hsame.writing.trans hwriting)
      (hsame.toServer.trans htoServer) (hsession.trans hsome)
      (fun hnone => hseat ((hplayer _ hsome).mp hnone))
    rw [hsame.bots, hsame.toBot]
    exact hreading

theorem Course.new (config : Config) : Course names [] (.new config names) where
  table := TableInv.new
  starts := fun h => by cases h
  order := ⟨fun _ => rfl, fun _ => rfl⟩
  inverse := Inverse.empty
  sessions := by
    intro session playerId hl
    have hnone : (∅ : AList fun _ : SessionId => String).lookup session = some playerId := hl
    simp at hnone
  players := by
    intro p hp
    cases hp
  stage := fun i => .away rfl rfl rfl rfl rfl rfl

/-! ### One step -/

theorem workLeft_of_part (hothers : ∀ j, j ≠ i → SamePart g g' j)
    (hwork : work g' i + 1 = work g i) (hhand : g'.server.hand = g.server.hand) :
    workLeft g' + 1 = workLeft g := by
  obtain ⟨j, hj, -, hsum⟩ := two_bots i
  have hother := (hothers j hj).work_eq
  have hbefore := hsum (work g)
  have hafter := hsum (work g')
  rw [workLeft, workLeft, hhand]
  omega

/-- A step in which only bot `i` and its channels take part. -/
theorem Course.of_part (h : Course names es g) {e : GameEvent} (hserver : g'.server = g.server)
    (hothers : ∀ j, j ≠ i → SamePart g g' j) (hstage : Stage g' (names i) i) :
    Course names (es ++ [e]) g' where
  table := hserver ▸ h.table
  starts := hserver ▸ h.starts
  order := hserver ▸ h.order
  inverse := hserver ▸ h.inverse
  sessions := by
    intro session playerId hl
    obtain ⟨k, hk, hmem⟩ := h.sessions session playerId (hserver ▸ hl)
    exact ⟨k, hk, List.mem_append_left _ hmem⟩
  players := hserver ▸ h.players
  stage := by
    intro k
    by_cases hk : k = i
    · exact hk ▸ hstage
    · exact (h.stage k).congr (hothers k hk) (by rw [hserver]) fun _ _ => by rw [hserver]

theorem step_connects (playerId : String) (hfree : g.connected i = false) :
    let g' := g.step (.connects i playerId)
    g'.server = g.server.registerSession playerId i.val ∧
      g'.connected = Function.update g.connected i true ∧ g'.bots = g.bots ∧
      g'.writing = g.writing ∧ g'.toServer = g.toServer ∧
      ∀ k, g'.toBot k = g.toBot k ++ if i.val = k.val then [.welcome playerId] else [] := by
  have hstep : g.step (.connects i playerId) = { g with
      connected := Function.update g.connected i true }.serve (.connect i.val playerId) := by
    rw [BotGame.step, hfree, if_neg Bool.false_ne_true]
  intro g'
  simp only [g', hstep, ← messagesFor_single]
  exact ⟨rfl, rfl, rfl, rfl, rfl, fun k => rfl⟩

/-- The id of a bot that connects is nobody's yet. -/
theorem Course.unknown (h : Course names es g) {playerId : String}
    (hids : DistinctIds (es ++ [.connects i playerId]))
    (hsession : g.server.sessionToPlayer.lookup i.val = none) :
    (∀ session, g.server.sessionToPlayer.lookup session ≠ some playerId) ∧
      g.server.tableManager.getPlayer playerId = none := by
  have hfresh : ∀ session, g.server.sessionToPlayer.lookup session ≠ some playerId := by
    intro session hl
    obtain ⟨k, rfl, hk⟩ := h.sessions session playerId hl
    obtain rfl := hids k i playerId (by simp [hk]) (by simp)
    rw [hsession] at hl
    cases hl
  refine ⟨hfresh, getPlayer_eq_none_iff.mpr fun p hp heq => ?_⟩
  obtain ⟨k, hl⟩ := h.players p hp
  exact hfresh k.val (heq ▸ hl)

theorem Stage.away_of_free {name : String} (h : Stage g name i) (hfree : g.connected i = false) :
    g.bots i = .new name ∧ g.toBot i = [] ∧ g.writing i = [] ∧ g.toServer i = [] ∧
      g.server.sessionToPlayer.lookup i.val = none := by
  cases h with
  | away _ hclient htoBot hwriting htoServer hsession =>
    exact ⟨hclient, htoBot, hwriting, htoServer, hsession⟩
  | welcomed hconnected => simp [hfree] at hconnected
  | joins hconnected => simp [hfree] at hconnected
  | sits hconnected => simp [hfree] at hconnected

theorem Course.connects (h : Course names es g) {playerId : String}
    (hids : DistinctIds (es ++ [.connects i playerId])) (hfree : g.connected i = false) :
    Course names (es ++ [.connects i playerId]) (g.step (.connects i playerId)) ∧
      workLeft (g.step (.connects i playerId)) + 1 = workLeft g := by
  obtain ⟨hclient, htoBot, hwriting, htoServer, hsession⟩ := (h.stage i).away_of_free hfree
  obtain ⟨hfresh, hnew⟩ := h.unknown hids hsession
  obtain ⟨hserver, hconnected, hbots, hwritings, htoServers, hheard⟩ := step_connects playerId hfree
  set g' := g.step (.connects i playerId)
  have hval : ∀ k : Bot, k ≠ i → k.val ≠ i.val := fun k hk heq => hk (Fin.ext heq)
  have hothers : ∀ k, k ≠ i → SamePart g g' k := by
    intro k hk
    refine ⟨?_, congrFun hbots k, ?_, congrFun hwritings k, congrFun htoServers k⟩
    · rw [hconnected, Function.update_of_ne hk]
    · rw [hheard, if_neg (hval k hk).symm, List.append_nil]
  have hlookup : g'.server.sessionToPlayer.lookup i.val = some playerId := by
    rw [hserver]
    exact AList.lookup_insert _
  have hlookups : ∀ session, session ≠ i.val →
      g'.server.sessionToPlayer.lookup session = g.server.sessionToPlayer.lookup session := by
    intro session hne
    rw [hserver]
    exact AList.lookup_insert_ne hne
  have htable : g'.server.tableManager = g.server.tableManager := by
    rw [hserver]
    rfl
  have hnow : g'.connected i = true ∧ g'.toBot i = [.welcome playerId] := by
    rw [hconnected, hheard, htoBot, if_pos rfl]
    exact ⟨Function.update_self .., rfl⟩
  refine ⟨⟨?_, ?_, ?_, ?_, ?_, ?_, ?_⟩, workLeft_of_part hothers ?_ ?_⟩
  · rw [hserver]
    exact h.table
  · rw [hserver]
    exact h.starts
  · rw [hserver]
    exact h.order
  · rw [hserver]
    exact h.inverse.insert (h.inverse.symm.lookup_eq_none_iff.mpr hfresh) hsession
  · intro session id hl
    by_cases hi : session = i.val
    · subst hi
      rw [hlookup] at hl
      obtain rfl := Option.some.inj hl
      exact ⟨i, rfl, by simp⟩
    · rw [hlookups session hi] at hl
      obtain ⟨k, hk, hmem⟩ := h.sessions session id hl
      exact ⟨k, hk, List.mem_append_left _ hmem⟩
  · intro p hp
    rw [htable] at hp ⊢
    obtain ⟨k, hl⟩ := h.players p hp
    have hk : k ≠ i := by
      rintro rfl
      rw [hsession] at hl
      cases hl
    exact ⟨k, (hlookups k.val (hval k hk)).trans hl⟩
  · intro k
    by_cases hk : k = i
    · subst hk
      exact .welcomed hnow.1 (hbots ▸ hclient) hnow.2 (hwritings ▸ hwriting)
        (htoServers ▸ htoServer) hlookup (htable ▸ hnew)
    · exact (h.stage k).congr (hothers k hk) (hlookups k.val (hval k hk)) fun _ _ => by rw [htable]
  · rw [work, work, hnow.1, hnow.2, hwritings, htoServers, hfree, htoBot, hwriting, htoServer]
    rfl
  · rw [GameSession.hand, htable]
    rfl

theorem step_botReads (dice : Client.Dice) (undef : Int32) {m : Server.Message}
    {rest : List Server.Message} (hwriting : g.writing i = []) (hchannel : g.toBot i = m :: rest) :
    let g' := g.step (.botReads i dice undef)
    let r := (g.bots i).onMessage dice undef m.toJson
    g'.server = g.server ∧ (∀ k, k ≠ i → SamePart g g' k) ∧ g'.connected i = g.connected i ∧
      g'.toServer i = g.toServer i ∧ g'.bots i = r.1 ∧ g'.toBot i = rest ∧ g'.writing i = r.2 := by
  have hstep : g.step (.botReads i dice undef) = { g with
      bots := Function.update g.bots i ((g.bots i).onMessage dice undef m.toJson).1
      toBot := Function.update g.toBot i rest
      writing := Function.update g.writing i ((g.bots i).onMessage dice undef m.toJson).2 } := by
    simp only [BotGame.step, hwriting, hchannel]
  intro g' r
  simp only [g', r, hstep, Function.update_self]
  refine ⟨trivial, fun k hk => ?_, trivial, trivial, trivial, trivial, trivial⟩
  exact ⟨rfl, Function.update_of_ne hk .., Function.update_of_ne hk .., Function.update_of_ne hk ..,
    rfl⟩

theorem Reading.reads {client : HeadsUp.Client} {m : Server.Message} {rest : List Server.Message}
    (h : Reading client.phase (m :: rest)) (dice : Client.Dice) (undef : Int32) :
    Reading (client.onMessage dice undef m.toJson).1.phase rest ∧
      (client.onMessage dice undef m.toJson).2 = [] ∧ workOf m = 1 := by
  generalize hphase : client.phase = phase at h
  generalize hmessages : m :: rest = messages at h
  cases h with
  | ack playerId seat started =>
    obtain ⟨rfl, rfl⟩ := List.cons.inj hmessages
    have hplays : client.onMessage dice undef (Server.Message.joinAck playerId seat).toJson
        = ({ client with phase := .playing }, []) := by
      rw [HeadsUp.Client.onMessage, hphase]
      rfl
    rw [hplays]
    exact ⟨.game started, rfl, rfl⟩
  | game started =>
    cases started with
    | nil => cases hmessages
    | cons first others =>
      obtain ⟨rfl, rfl⟩ := List.cons.inj hmessages
      have hplays : client.onMessage dice undef (Server.Message.handStarted first).toJson
          = (client, []) := by
        rw [HeadsUp.Client.onMessage, hphase]
        rfl
      rw [hplays, hphase]
      exact ⟨.game others, rfl, rfl⟩

theorem Course.botReads (h : Course names es g) (dice : Client.Dice) (undef : Int32)
    {m : Server.Message} {rest : List Server.Message} (hwriting : g.writing i = [])
    (hchannel : g.toBot i = m :: rest) :
    Course names (es ++ [.botReads i dice undef]) (g.step (.botReads i dice undef)) ∧
      workLeft (g.step (.botReads i dice undef)) + 1 = workLeft g := by
  obtain ⟨hserver, hothers, hconnected', htoServer', hbot', htoBot', hwriting'⟩ :=
    step_botReads dice undef hwriting hchannel
  set g' := g.step (.botReads i dice undef)
  have hpart : Stage g' (names i) i ∧ work g' i + 1 = work g i := by
    rw [work, work, hconnected', htoServer', htoBot', hwriting', hwriting, hchannel, List.map_cons,
      List.sum_cons]
    have hstage := h.stage i
    cases hstage with
    | away _ _ hempty => simp [hchannel] at hempty
    | joins _ _ hempty => simp [hchannel] at hempty
    | @welcomed playerId hconnected hclient hwelcome _ htoServer hsession hnew =>
      obtain ⟨rfl, rfl⟩ := List.cons.inj (hchannel.symm.trans hwelcome)
      have hanswer : (g.bots i).onMessage dice undef (Server.Message.welcome playerId).toJson
          = ({ Client.new (names i) with playerId, phase := .awaitsJoinAck },
            [.join (names i)]) := by
        rw [hclient]
        rfl
      rw [hanswer] at hbot' hwriting' ⊢
      refine ⟨.joins (hconnected'.trans hconnected) (by rw [hbot']) htoBot'
        (.inl ⟨hwriting', htoServer'.trans htoServer⟩) (hserver ▸ hsession) (hserver ▸ hnew), ?_⟩
      simp only [workOf, List.map_nil, List.sum_nil, List.length_singleton, List.length_nil]
      omega
    | sits hconnected hreading _ htoServer hsession hseat =>
      rw [hchannel] at hreading
      obtain ⟨hreads, hsilent, hone⟩ := hreading.reads dice undef
      rw [hsilent] at hwriting' ⊢
      refine ⟨.sits (hconnected'.trans hconnected) ?_ hwriting' (htoServer'.trans htoServer)
        (hserver ▸ hsession) (hserver ▸ hseat), ?_⟩
      · rw [hbot', htoBot']
        exact hreads
      · rw [hone]
        omega
  obtain ⟨hstage, hwork⟩ := hpart
  exact ⟨h.of_part hserver hothers hstage, workLeft_of_part hothers hwork (by rw [hserver])⟩

theorem Course.botWrites (h : Course names es g) {m : Client.Message}
    {rest : List Client.Message} (hwriting : g.writing i = m :: rest) :
    Course names (es ++ [.botWrites i]) (g.step (.botWrites i)) ∧
      workLeft (g.step (.botWrites i)) + 1 = workLeft g := by
  have hstep : g.step (.botWrites i) = { g with
      writing := Function.update g.writing i rest
      toServer := Function.update g.toServer i (g.toServer i ++ [m]) } := by
    simp only [BotGame.step, hwriting]
  have hothers : ∀ k, k ≠ i → SamePart g (g.step (.botWrites i)) k := by
    intro k hk
    rw [hstep]
    exact ⟨rfl, rfl, rfl, Function.update_of_ne hk .., Function.update_of_ne hk ..⟩
  have hwriting' : (g.step (.botWrites i)).writing i = rest := by
    simp only [hstep, Function.update_self]
  have htoServer' : (g.step (.botWrites i)).toServer i = g.toServer i ++ [m] := by
    simp only [hstep, Function.update_self]
  have hkept : (g.step (.botWrites i)).server = g.server ∧
      (g.step (.botWrites i)).connected = g.connected ∧
      (g.step (.botWrites i)).bots = g.bots ∧ (g.step (.botWrites i)).toBot = g.toBot := by
    rw [hstep]
    exact ⟨rfl, rfl, rfl, rfl⟩
  obtain ⟨hserver, hconnected', hbots', htoBot'⟩ := hkept
  set g' := g.step (.botWrites i)
  have hstage := h.stage i
  cases hstage with
  | away _ _ _ hnone => simp [hwriting] at hnone
  | welcomed _ _ _ hnone => simp [hwriting] at hnone
  | sits _ _ hnone => simp [hwriting] at hnone
  | joins hconnected hclient htoBot hjoin hsession hnew =>
    rcases hjoin with ⟨hsent, htoServer⟩ | ⟨hnone, -⟩
    swap
    · simp [hwriting] at hnone
    obtain ⟨rfl, rfl⟩ := List.cons.inj (hwriting.symm.trans hsent)
    rw [htoServer, List.nil_append] at htoServer'
    have hsends : Stage g' (names i) i :=
      .joins (by rw [hconnected', hconnected]) (by rw [hbots', hclient]) (by rw [htoBot', htoBot])
        (.inr ⟨hwriting', htoServer'⟩) (hserver ▸ hsession) (hserver ▸ hnew)
    refine ⟨h.of_part hserver hothers hsends, workLeft_of_part hothers ?_ (by rw [hserver])⟩
    rw [work, work, hconnected', htoBot', hwriting, htoServer, hwriting', htoServer']
    simp only [List.length_nil, List.length_singleton]

/-- Whoever sits is the other bot, as long as a bot has no seat. -/
theorem Course.other_session (h : Course names es g) {playerId : String}
    (hsession : g.server.sessionToPlayer.lookup i.val = some playerId)
    (hnew : g.server.tableManager.getPlayer playerId = none) (hj : j ≠ i) {p : PlayerRef}
    (hp : p ∈ g.server.tableManager.players) :
    g.server.sessionToPlayer.lookup j.val = some (g.server.tableManager.heap p).id := by
  obtain ⟨k, hl⟩ := h.players p hp
  obtain ⟨_, -, hall, -⟩ := two_bots i
  have hki : k ≠ i := by
    rintro rfl
    exact getPlayer_eq_none_iff.mp hnew p hp (Option.some.inj (hl.symm.trans hsession))
  rwa [(hall j).resolve_left hj, ← (hall k).resolve_left hki]

/-- The bots have an id each, so a bot without a seat finds one. -/
theorem Course.seat_free (h : Course names es g) {playerId : String}
    (hsession : g.server.sessionToPlayer.lookup i.val = some playerId)
    (hnew : g.server.tableManager.getPlayer playerId = none) :
    g.server.tableManager.table.seat2 = none := by
  obtain ⟨j, hj, -⟩ := two_bots i
  by_contra htwo
  have hone : g.server.tableManager.table.seat1 ≠ none := fun hone => htwo (h.order.first hone)
  obtain ⟨p, q, -, -, hperm⟩ := h.table.pair (Option.isSome_iff_ne_none.mpr hone)
    (Option.isSome_iff_ne_none.mpr htwo)
  have hp := h.other_session hsession hnew hj (hperm.subset (by simp : p ∈ [p, q]))
  have hq := h.other_session hsession hnew hj (hperm.subset (by simp : q ∈ [p, q]))
  have hids : (g.server.tableManager.heap p).id = (g.server.tableManager.heap q).id :=
    Option.some.inj (hp.symm.trans hq)
  have hnodup := h.table.ids
  rw [← (hperm.map _).nodup_iff] at hnodup
  simp [hids] at hnodup

theorem sum_workOf_started (started : List HandStarted) :
    ((started.map Server.Message.handStarted).map workOf).sum = started.length := by
  induction started with
  | nil => rfl
  | cons first others ih =>
    simp only [List.map_cons, List.sum_cons, ih, List.length_cons, workOf]
    omega

theorem step_serverReads (c : Choices) {m : Client.Message} {rest : List Client.Message}
    (hchannel : g.toServer i = m :: rest) :
    let g' := g.step (.serverReads i c)
    let r := g.server.step (.message i.val (some m.toJson) c)
    g'.server = r.1 ∧ g'.connected = g.connected ∧ g'.bots = g.bots ∧ g'.writing = g.writing ∧
      g'.toServer = Function.update g.toServer i rest ∧
      ∀ k, g'.toBot k = g.toBot k ++ messagesFor k.val r.2 := by
  have hstep : g.step (.serverReads i c) = { g with
      toServer := Function.update g.toServer i rest }.serve
        (.message i.val (some m.toJson) c) := by
    simp only [BotGame.step, hchannel]
  intro g' r
  simp only [g', hstep]
  exact ⟨rfl, rfl, rfl, rfl, rfl, fun k => rfl⟩

/-- The server has read the join of bot `i`, and `started` is what it tells of a hand. -/
structure Joins (g g' : BotGame) (i : Bot) (playerId : String) (started : List HandStarted) :
    Prop where
  seats : Seats g.server g'.server playerId
  starts : g'.server.hand.isSome = true ↔ g.server.tableManager.table.seat1 ≠ none
  length : started.length = if g'.server.hand.isSome = true then 1 else 0
  connected : g'.connected = g.connected
  bots : g'.bots = g.bots
  writing : g'.writing = g.writing
  toServer : g'.toServer = Function.update g.toServer i []
  acked : ∃ ackId seat, g'.toBot i = g.toBot i ++ .joinAck ackId seat :: started.map .handStarted
  others : ∀ k, k ≠ i → g'.toBot k = g.toBot k ++
    if (g.server.sessionToPlayer.lookup k.val).isSome = true then started.map .handStarted else []

theorem Course.joins (h : Course names es g) (hname : names i ≠ "") (c : Choices)
    {playerId : String} (htoServer : g.toServer i = [.join (names i)])
    (hsession : g.server.sessionToPlayer.lookup i.val = some playerId)
    (hnew : g.server.tableManager.getPlayer playerId = none) :
    ∃ started, Joins g (g.step (.serverReads i c)) i playerId started := by
  obtain ⟨hseats, ⟨ackId, seat, started, hlength, hheard⟩, hstarts⟩ :=
    step_join_heard h.table h.inverse hname hsession hnew (h.seat_free hsession hnew) c
  obtain ⟨hserver, hconnected, hbots, hwriting, htoServer', htoBot⟩ := step_serverReads c htoServer
  rw [← hserver] at hseats hstarts hlength
  refine ⟨started, hseats, hstarts, hlength, hconnected, hbots, hwriting, htoServer',
    ⟨ackId, seat, ?_⟩, fun k hk => ?_⟩
  · rw [htoBot, hheard, if_pos rfl, if_pos (by rw [hsession]; rfl)]
    rfl
  · rw [htoBot, hheard, if_neg fun heq => hk (Fin.ext heq.symm), List.nil_append]

namespace Joins
variable {playerId : String} {started : List HandStarted} (hjoins : Joins g g' i playerId started)
  (h : Course names es g) (hsession : g.server.sessionToPlayer.lookup i.val = some playerId)
include hjoins

theorem mine {name : String} (hconnected : g.connected i = true)
    (hclient : (g.bots i).phase = .awaitsJoinAck) (htoBot : g.toBot i = [])
    (hwriting : g.writing i = []) (htoServer : g.toServer i = [.join name])
    (hsession : g.server.sessionToPlayer.lookup i.val = some playerId) :
    Stage g' name i ∧ work g' i + 1 = work g i + started.length := by
  obtain ⟨ackId, seat, hmine⟩ := hjoins.acked
  rw [htoBot, List.nil_append] at hmine
  refine ⟨.sits (by rw [hjoins.connected, hconnected]) ?_ (by rw [hjoins.writing, hwriting])
    (by rw [hjoins.toServer, Function.update_self])
    (by rw [hjoins.seats.sessions.2, hsession]) hjoins.seats.getPlayer_ne_none, ?_⟩
  · rw [hjoins.bots, hclient, hmine]
    exact .ack ackId seat started
  · rw [work, work, hjoins.connected, hjoins.writing, hjoins.toServer, Function.update_self, hmine,
      htoBot, htoServer, hconnected, hwriting, List.map_cons, List.sum_cons, sum_workOf_started]
    simp only [workOf, List.map_nil, List.sum_nil, List.length_nil, List.length_singleton]
    omega

include h hsession

/-- Without a hand the other bot hears nothing of it. -/
theorem unheard (hnil : started = []) (hj : j ≠ i) : SamePart g g' j ∧ Stage g' (names j) j := by
  have hsame : SamePart g g' j := by
    refine ⟨by rw [hjoins.connected], by rw [hjoins.bots], ?_, by rw [hjoins.writing], ?_⟩
    · rw [hjoins.others j hj, hnil, List.map_nil, ite_self, List.append_nil]
    · rw [hjoins.toServer, Function.update_of_ne hj]
  refine ⟨hsame, (h.stage j).congr hsame (by rw [hjoins.seats.sessions.2]) fun id hl => ?_⟩
  have hne : playerId ≠ id := by
    rintro rfl
    exact hj (Fin.ext (h.inverse.symm.left_unique hl hsession))
  rw [getPlayer_eq_none_iff, getPlayer_eq_none_iff, hjoins.seats.players]
  constructor
  · intro hh p hp
    obtain ⟨-, hid⟩ := hjoins.seats.stays h.table p hp
    exact hid ▸ hh p (List.mem_append_left _ hp)
  · intro hh p hp
    rcases List.mem_append.mp hp with hp | hp
    · obtain ⟨-, hid⟩ := hjoins.seats.stays h.table p hp
      exact hid ▸ hh p hp
    · obtain rfl := List.mem_singleton.mp hp
      exact (congrArg Presence.id hjoins.seats.player).trans_ne hne

/-- A hand starts only if the other bot has its seat. -/
theorem dealt (hnew : g.server.tableManager.getPlayer playerId = none)
    (hhand : g'.server.hand.isSome = true) (hj : j ≠ i) :
    Stage g' (names j) j ∧ g'.toBot j = g.toBot j ++ started.map .handStarted := by
  obtain ⟨p, hp⟩ := Option.ne_none_iff_exists'.mp (hjoins.starts.mp hhand)
  have hmem : p ∈ g.server.tableManager.players := h.table.mem_players_iff.mpr (.inl hp)
  have hl := h.other_session hsession hnew hj hmem
  have hget := h.table.getPlayer hmem
  have hgrows : g'.toBot j = g.toBot j ++ started.map .handStarted := by
    rw [hjoins.others j hj, if_pos (by rw [hl]; rfl)]
  refine ⟨?_, hgrows⟩
  have hstage := h.stage j
  cases hstage with
  | away _ _ _ _ _ hnone => simp [hl] at hnone
  | welcomed _ _ _ _ _ hl' hnew' =>
    obtain rfl := Option.some.inj (hl.symm.trans hl')
    simp [hget] at hnew'
  | joins _ _ _ _ hl' hnew' =>
    obtain rfl := Option.some.inj (hl.symm.trans hl')
    simp [hget] at hnew'
  | sits hconnected hreading hwriting htoServer hl' hseat =>
    obtain rfl := Option.some.inj (hl.symm.trans hl')
    refine .sits (by rw [hjoins.connected, hconnected]) ?_ (by rw [hjoins.writing, hwriting])
      (by rw [hjoins.toServer, Function.update_of_ne hj, htoServer])
      (by rw [hjoins.seats.sessions.2, hl]) fun hmissing => ?_
    · rw [hjoins.bots, hgrows]
      exact hreading.append started
    · obtain ⟨hmem', hid⟩ := hjoins.seats.stays h.table p hmem
      exact getPlayer_eq_none_iff.mp hmissing p hmem' hid

theorem other (hnew : g.server.tableManager.getPlayer playerId = none) (hj : j ≠ i) :
    Stage g' (names j) j ∧ work g' j = work g j + started.length := by
  by_cases hhand : g'.server.hand.isSome = true
  · obtain ⟨hstage, hgrows⟩ := hjoins.dealt h hsession hnew hhand hj
    refine ⟨hstage, ?_⟩
    rw [work, work, hjoins.connected, hjoins.writing, hjoins.toServer, Function.update_of_ne hj,
      hgrows, List.map_append, List.sum_append, sum_workOf_started]
    omega
  · have hnil : started = [] := List.length_eq_zero_iff.mp (hjoins.length.trans (if_neg hhand))
    obtain ⟨hsame, hstage⟩ := hjoins.unheard h hsession hnil hj
    refine ⟨hstage, ?_⟩
    rw [hsame.work_eq, hnil]
    rfl

end Joins

theorem Course.joinRead (h : Course names es g) (hname : names i ≠ "") (c : Choices)
    {playerId : String} (hconnected : g.connected i = true)
    (hclient : (g.bots i).phase = .awaitsJoinAck) (htoBot : g.toBot i = [])
    (hwriting : g.writing i = []) (htoServer : g.toServer i = [.join (names i)])
    (hsession : g.server.sessionToPlayer.lookup i.val = some playerId)
    (hnew : g.server.tableManager.getPlayer playerId = none) :
    Course names (es ++ [.serverReads i c]) (g.step (.serverReads i c)) ∧
      workLeft (g.step (.serverReads i c)) + 1 = workLeft g := by
  have hnone : g.server.hand = none := (h.table.of_free_seat (.inr (h.seat_free hsession hnew))).1
  obtain ⟨started, hjoins⟩ := h.joins hname c htoServer hsession hnew
  obtain ⟨hserver, -⟩ := step_serverReads c htoServer
  obtain ⟨hplayers, hsessions⟩ := hjoins.seats.sessions
  obtain ⟨hstage, hwork⟩ := hjoins.mine hconnected hclient htoBot hwriting htoServer hsession
  set g' := g.step (.serverReads i c)
  refine ⟨⟨?_, ?_, ?_, ?_, ?_, ?_, fun k => ?_⟩, ?_⟩
  · rw [hserver]
    exact (step_accounted h.table _).inv
  · rw [hserver]
    exact (join_starts h.table h.starts (names i) i.val c).1
  · rw [hserver]
    exact h.order.moves h.table (step_moves h.table _)
  · rw [hplayers, hsessions]
    exact h.inverse
  · intro session id hl
    rw [hsessions] at hl
    obtain ⟨k, hk, hmem⟩ := h.sessions session id hl
    exact ⟨k, hk, List.mem_append_left _ hmem⟩
  · intro p hp
    rw [hjoins.seats.players, List.mem_append, List.mem_singleton] at hp
    rw [hsessions]
    rcases hp with hp | rfl
    · obtain ⟨-, hid⟩ := hjoins.seats.stays h.table p hp
      exact hid ▸ h.players p hp
    · exact ⟨i, hsession.trans (congrArg some (congrArg Presence.id hjoins.seats.player).symm)⟩
  · by_cases hk : k = i
    · exact hk ▸ hstage
    · exact (hjoins.other h hsession hnew hk).1
  · obtain ⟨j, hj, -, hsum⟩ := two_bots i
    obtain ⟨-, hother⟩ := hjoins.other h hsession hnew hj
    have hlength := hjoins.length
    have hbefore := hsum (work g)
    have hafter := hsum (work g')
    rw [workLeft, workLeft, hnone]
    simp only [Option.isSome_none, Bool.false_eq_true, if_false]
    split_ifs at hlength ⊢
    · omega
    · omega

theorem Course.stays (h : Course names es g) {e : GameEvent} (hsame : g.step e = g) :
    Course names (es ++ [e]) (g.step e) ∧ (g.step e ≠ g → workLeft (g.step e) + 1 = workLeft g) := by
  refine ⟨?_, fun hchanges => absurd hsame hchanges⟩
  rw [hsame]
  exact h.of_part rfl (fun _ _ => ⟨rfl, rfl, rfl, rfl, rfl⟩) (h.stage 0)

theorem Course.step (h : Course names es g) (hnames : ∀ i, names i ≠ "") (e : GameEvent)
    (hids : DistinctIds (es ++ [e])) :
    Course names (es ++ [e]) (g.step e) ∧
      (g.step e ≠ g → workLeft (g.step e) + 1 = workLeft g) := by
  cases e with
  | connects i playerId =>
    cases hconnected : g.connected i with
    | true => exact h.stays (by rw [BotGame.step, if_pos hconnected])
    | false =>
      obtain ⟨hcourse, hwork⟩ := h.connects hids hconnected
      exact ⟨hcourse, fun _ => hwork⟩
  | serverReads i c =>
    cases hchannel : g.toServer i with
    | nil => exact h.stays (by simp only [BotGame.step, hchannel])
    | cons m rest =>
      have hstage := h.stage i
      cases hstage with
      | away _ _ _ _ hempty => simp [hchannel] at hempty
      | welcomed _ _ _ _ hempty => simp [hchannel] at hempty
      | sits _ _ _ hempty => simp [hchannel] at hempty
      | joins hconnected hclient htoBot hjoin hsession hnew =>
        rcases hjoin with ⟨-, hempty⟩ | ⟨hwriting, htoServer⟩
        · simp [hchannel] at hempty
        · obtain ⟨hcourse, hwork⟩ := h.joinRead (hnames i) c hconnected hclient htoBot hwriting
            htoServer hsession hnew
          exact ⟨hcourse, fun _ => hwork⟩
  | botReads i dice undef =>
    cases hwriting : g.writing i with
    | cons m rest => exact h.stays (by simp only [BotGame.step, hwriting])
    | nil =>
      cases hchannel : g.toBot i with
      | nil => exact h.stays (by simp only [BotGame.step, hwriting, hchannel])
      | cons m rest =>
        obtain ⟨hcourse, hwork⟩ := h.botReads dice undef hwriting hchannel
        exact ⟨hcourse, fun _ => hwork⟩
  | botWrites i =>
    cases hwriting : g.writing i with
    | nil => exact h.stays (by simp only [BotGame.step, hwriting])
    | cons m rest =>
      obtain ⟨hcourse, hwork⟩ := h.botWrites hwriting
      exact ⟨hcourse, fun _ => hwork⟩

theorem run_course (config : Config) (hnames : ∀ i, names i ≠ "") (hids : DistinctIds es) :
    Course names es ((BotGame.machine config names).run es) :=
  (BotGame.machine config names).invariant_of_ok DistinctIds
    (fun _ _ hh i j playerId hi hj =>
      hh i j playerId (List.mem_append_left _ hi) (List.mem_append_left _ hj))
    (Course names) (.new config) (fun _ e hh hcourse => (hcourse.step hnames e hh).1) es hids

/-! ### The standstill -/

theorem length_le_work (messages : List Server.Message) :
    messages.length ≤ (messages.map workOf).sum := by
  induction messages with
  | nil => rfl
  | cons m messages ih =>
    have hpos : 1 ≤ workOf m := by
      unfold workOf
      split <;> omega
    rw [List.map_cons, List.sum_cons, List.length_cons]
    omega

/-- All is done: both are connected and nothing is on its way. -/
theorem workLeft_eq_zero_iff : workLeft g = 0 ↔ g.server.hand.isSome = true ∧ ∀ i,
    g.connected i = true ∧ g.toBot i = [] ∧ g.writing i = [] ∧ g.toServer i = [] := by
  have hone : ∀ i, work g i = 0 ↔
      g.connected i = true ∧ g.toBot i = [] ∧ g.writing i = [] ∧ g.toServer i = [] := by
    intro i
    have hlength := length_le_work (g.toBot i)
    rw [work]
    constructor
    · intro hzero
      refine ⟨?_, ?_, ?_, ?_⟩
      · by_contra hconnected
        rw [if_neg hconnected] at hzero
        omega
      · exact List.length_eq_zero_iff.mp (by omega)
      · exact List.length_eq_zero_iff.mp (by omega)
      · exact List.length_eq_zero_iff.mp (by omega)
    · intro hh
      obtain ⟨hconnected, htoBot, hwriting, htoServer⟩ := hh
      rw [if_pos hconnected, htoBot, hwriting, htoServer]
      rfl
  rw [workLeft, Fin.sum_univ_two, Fin.forall_fin_two, ← hone 0, ← hone 1]
  by_cases hhand : g.server.hand.isSome = true
  · rw [if_pos hhand, and_iff_right hhand]
    omega
  · rw [if_neg hhand]
    exact iff_of_false (by omega) fun hh => hhand hh.1

/-- Where nothing can happen both bots have their seats. -/
theorem Course.sits (h : Course names es g) (hstill : ∀ e, g.step e = g) (i : Bot) :
    g.connected i = true ∧ g.writing i = [] ∧ g.toBot i = [] ∧ g.toServer i = [] ∧
      (g.bots i).phase = .playing ∧ ∃ playerId,
        g.server.sessionToPlayer.lookup i.val = some playerId ∧
          g.server.tableManager.getPlayer playerId ≠ none := by
  have hconnected : g.connected i = true := by
    by_contra hfree
    have hconnects := congrFun (congrArg BotGame.connected (hstill (.connects i ""))) i
    rw [BotGame.step, if_neg hfree] at hconnects
    exact hfree (hconnects.symm.trans (Function.update_self ..))
  have htoServer : g.toServer i = [] := by
    cases hchannel : g.toServer i with
    | nil => rfl
    | cons m rest =>
      have hreads := congrFun (congrArg BotGame.toServer (hstill (.serverReads i (.plain "")))) i
      have hrest : (g.step (.serverReads i (.plain ""))).toServer i = rest := by
        simp only [BotGame.step, hchannel]
        exact Function.update_self ..
      rw [hrest, hchannel] at hreads
      simp at hreads
  have hwriting : g.writing i = [] := by
    cases hwriting : g.writing i with
    | nil => rfl
    | cons m rest =>
      have hwrites := congrFun (congrArg BotGame.writing (hstill (.botWrites i))) i
      have hrest : (g.step (.botWrites i)).writing i = rest := by
        simp only [BotGame.step, hwriting]
        exact Function.update_self ..
      rw [hrest, hwriting] at hwrites
      simp at hwrites
  have htoBot : g.toBot i = [] := by
    cases hchannel : g.toBot i with
    | nil => rfl
    | cons m rest =>
      obtain ⟨-, -, -, -, -, hrest, -⟩ := step_botReads (.facing 0) 0 hwriting hchannel
      rw [hstill, hchannel] at hrest
      simp at hrest
  have hstage := h.stage i
  cases hstage with
  | away hfree => simp [hconnected] at hfree
  | welcomed _ _ hwelcome => simp [htoBot] at hwelcome
  | joins _ _ _ hjoin => simp [hwriting, htoServer] at hjoin
  | sits _ hreading _ _ hsession hseat =>
    rw [htoBot] at hreading
    exact ⟨hconnected, hwriting, htoBot, htoServer, hreading.done, _, hsession, hseat⟩

theorem Course.still_iff (h : Course names es g) : (∀ e, g.step e = g) ↔ workLeft g = 0 := by
  rw [workLeft_eq_zero_iff]
  constructor
  · intro hstill
    refine ⟨?_, fun i => ?_⟩
    · obtain ⟨-, -, -, -, -, id₀, hsession₀, hseat₀⟩ := h.sits hstill 0
      obtain ⟨-, -, -, -, -, id₁, hsession₁, hseat₁⟩ := h.sits hstill 1
      obtain ⟨p, hp⟩ := Option.ne_none_iff_exists'.mp hseat₀
      obtain ⟨q, hq⟩ := Option.ne_none_iff_exists'.mp hseat₁
      have hpq : p ≠ q := by
        rintro rfl
        obtain rfl : id₀ = id₁ := (getPlayer_mem hp).2.symm.trans (getPlayer_mem hq).2
        exact absurd (h.inverse.symm.left_unique hsession₀ hsession₁) (by decide)
      have hp' := h.table.seats.symm.subset (getPlayer_mem hp).1
      have hq' := h.table.seats.symm.subset (getPlayer_mem hq).1
      refine h.starts ?_ ?_
      · refine Option.isSome_iff_ne_none.mpr fun hone => ?_
        simp [seated, hone, h.order.first hone] at hp'
      · refine Option.isSome_iff_ne_none.mpr fun htwo => ?_
        simp only [seated, htwo, Option.toList_none, List.append_nil, Option.mem_toList] at hp' hq'
        exact hpq (Option.some.inj (hp'.symm.trans hq'))
    · obtain ⟨hconnected, hwriting, htoBot, htoServer, -⟩ := h.sits hstill i
      exact ⟨hconnected, htoBot, hwriting, htoServer⟩
  · intro hh e
    obtain ⟨-, hall⟩ := hh
    cases e with
    | connects i playerId => rw [BotGame.step, if_pos (hall i).1]
    | serverReads i c => simp only [BotGame.step, (hall i).2.2.2]
    | botReads i dice undef => simp only [BotGame.step, (hall i).2.1, (hall i).2.2.1]
    | botWrites i => simp only [BotGame.step, (hall i).2.2.1]

/-- Whatever the order of their steps, two bots and the server take at most
twelve; after the twelfth both bots play a hand in which nobody is asked to act,
and nothing will ever happen again. -/
theorem standstill (config : Config) (hnames : ∀ i, names i ≠ "") (hids : DistinctIds es)
    (hchanges : (BotGame.machine config names).EveryStep
      (fun g e => (BotGame.machine config names).next g e ≠ g) es) :
    let g := (BotGame.machine config names).run es
    es.length ≤ 12 ∧ (es.length = 12 ↔ ∀ e, g.step e = g) ∧
      (es.length = 12 → (∀ i, (g.bots i).phase = .playing) ∧ ∃ hand, g.server.hand = some hand ∧
        isHandComplete hand = false ∧ ¬Outstanding g hand) := by
  intro g
  have hcourse : Course names es g := run_course config hnames hids
  have hwork : workLeft g + es.length = 12 := by
    refine (BotGame.machine config names).work_add_length workLeft (fun pre e hpre hne => ?_) hchanges
    have hids' : DistinctIds (pre ++ [e]) := fun i j playerId hi hj =>
      hids i j playerId (hpre.subset hi) (hpre.subset hj)
    have hpre' : DistinctIds pre := fun i j playerId hi hj =>
      hids' i j playerId (List.mem_append_left _ hi) (List.mem_append_left _ hj)
    exact ((run_course config hnames hpre').step hnames e hids').2 hne
  refine ⟨by omega, ?_, fun htwelve => ?_⟩
  · rw [hcourse.still_iff]
    omega
  · have hzero : workLeft g = 0 := by omega
    have hstill := hcourse.still_iff.mpr hzero
    refine ⟨fun i => (hcourse.sits hstill i).2.2.2.2.1, ?_⟩
    obtain ⟨hand, hhand⟩ := Option.isSome_iff_exists.mp (workLeft_eq_zero_iff.mp hzero).1
    obtain ⟨hplay, hun⟩ := hcourse.table.playing hand hhand
    obtain ⟨p, q, hpq, -⟩ := hplay.two
    refine ⟨hand, hhand, ?_, (run_quiet config names es).not_outstanding hand⟩
    rw [isHandComplete_playing hplay, hun.activePlayers hpq]
    rfl

def joiningNames (i : Bot) : String := if i.val = 0 then "Alice" else "Bob"

theorem joining_changes : (BotGame.machine ⟨30000, 60000⟩ joiningNames).EveryStep
    (fun g e => (BotGame.machine ⟨30000, 60000⟩ joiningNames).next g e ≠ g) joining := by
  have hwork : ∀ k < joining.length,
      workLeft ((BotGame.machine ⟨30000, 60000⟩ joiningNames).run (joining.take (k + 1)))
        ≠ workLeft ((BotGame.machine ⟨30000, 60000⟩ joiningNames).run (joining.take k)) := by
    decide +kernel
  intro pre e hpre hsame
  have hlength : (pre ++ [e]).length ≤ joining.length := hpre.length_le
  rw [List.length_append, List.length_singleton] at hlength
  have hlater : joining.take (pre.length + 1) = pre ++ [e] := by
    rw [List.prefix_iff_eq_take.mp hpre]
    simp
  have hearlier : joining.take pre.length = pre :=
    (List.prefix_iff_eq_take.mp ((List.prefix_append pre [e]).trans hpre)).symm
  refine hwork pre.length (by omega) ?_
  rw [hlater, hearlier, Machine.run_concat, hsame]

theorem standstill_joining :
    let g := (BotGame.machine ⟨30000, 60000⟩ joiningNames).run joining
    joining.length ≤ 12 ∧ (joining.length = 12 ↔ ∀ e, g.step e = g) ∧
      (joining.length = 12 → (∀ i, (g.bots i).phase = .playing) ∧ ∃ hand, g.server.hand = some hand ∧
        isHandComplete hand = false ∧ ¬Outstanding g hand) :=
  standstill ⟨30000, 60000⟩ (by decide) (by
    intro i j playerId hi hj
    simp only [joining, List.mem_cons, GameEvent.connects.injEq, reduceCtorEq, List.not_mem_nil,
      or_false] at hi hj
    rcases hi with ⟨rfl, rfl⟩ | ⟨rfl, rfl⟩ <;> rcases hj with ⟨rfl, hid⟩ | ⟨rfl, hid⟩ <;>
      first | rfl | simp at hid) joining_changes

end HeadsUp.Game
