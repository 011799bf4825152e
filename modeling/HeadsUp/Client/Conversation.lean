import HeadsUp.Lib.Machine
import HeadsUp.Client.Client

/-!
# The bot over a connection (`client/client.cpp`)

`Client::run` against any server at all: whatever it reads, texts that do not
parse included, it speaks when it is spoken to and answers every request.
-/

namespace HeadsUp.Client
open HeadsUp.Core HeadsUp.Common HeadsUp.Lib

/-- A text as it is parsed, and what the bot leaves to chance while it reads it. -/
structure Read where
  message : Option Json
  dice : Dice
  undef : Int32

def Read.type (r : Read) : Option String := r.message.bind typeOf

def read (client : Client) (r : Read) : Client × List Message :=
  match r.message with
  -- `ws.close(abnormal)`, wherever it stands
  | none => (client.close, [])
  | some json => client.onMessage r.dice r.undef json

def machine (name : String) : Machine Client Read Message := ⟨new name, read⟩

/-- What has the bot say a message: its own id is in the welcome and among the
stacks of a completed hand. -/
inductive Prompted (name playerId : String) (r : Read) : Message → Prop
  | welcome {json : Json} (hread : r.message = some json) (htype : typeOf json = some "welcome")
      (hid : payloadString json "player_id" = some playerId) :
      Prompted name playerId r (.join name)
  | request {json possible : Json} {handId chosen : String} {actions : List String}
      {callAmount minRaise maxRaise amount : ℤ} (hread : r.message = some json)
      (htype : typeOf json = some "action_request")
      (hhand : payloadString json "hand_id" = some handId)
      (hpossible : payloadField json "possible_actions" = some possible)
      (hactions : possible.elements.mapM (fun action => action.getString.toOption) = some actions)
      (hcall : payloadInt r.undef json "call_amount" = some callAmount)
      (hmin : payloadInt r.undef json "min_raise" = some minRaise)
      (hmax : payloadInt r.undef json "max_raise" = some maxRaise) (hchosen : chosen ∈ actions)
      (hanswer : RandomStrategy.Answer callAmount minRaise maxRaise chosen amount) :
      Prompted name playerId r (.action handId chosen amount)
  | short {json updated : Json} {stack : ℤ} (hread : r.message = some json)
      (htype : typeOf json = some "hand_completed")
      (hupdated : payloadField json "updated_stacks" = some updated)
      (hstack : ((updated.get playerId).bind (Json.getInt r.undef)).toOption = some stack)
      (hshort : stack < StackManagement.topUpThresholdBB * StackManagement.bigBlind) :
      Prompted name playerId r .topUp

/-! ### One message -/

variable {client : Client} {r : Read}

theorem chooseAction_spec {dice : Dice} {actions : List String} {callAmount minRaise maxRaise : ℤ}
    {chosen : String × ℤ}
    (h : (RandomStrategy.chooseAction dice actions callAmount minRaise maxRaise).toOption
      = some chosen) :
    chosen.1 ∈ actions ∧
      RandomStrategy.Answer callAmount minRaise maxRaise chosen.1 chosen.2 := by
  unfold RandomStrategy.chooseAction at h
  by_cases hlen : 0 < actions.length
  · rw [dif_pos hlen] at h
    have hmem := List.get_mem actions (dice.index actions.length hlen)
    generalize actions.get (dice.index actions.length hlen) = action at h hmem
    simp only at h
    split_ifs at h with hraise hrange hcall hfold
    · cases h
      have hbounds := (dice.between minRaise maxRaise hrange).2
      exact ⟨hmem, hraise ▸ .raise hbounds.1 hbounds.2⟩
    · cases h
    · cases h
      exact ⟨hmem, hcall ▸ .call⟩
    · cases h
      exact ⟨hmem, hfold ▸ .fold⟩
    · cases h
  · rw [dif_neg hlen] at h
    cases h

theorem answer_prompted {json : Json} {m : Message} (hread : r.message = some json)
    (htype : typeOf json = some "action_request") (h : answer r.dice r.undef json = some m)
    (name playerId : String) :
    Prompted name playerId r m ∧ m.type = "action" := by
  simp only [answer, Option.bind_eq_bind, Option.bind_eq_some_iff] at h
  obtain ⟨handId, hhand, possible, hpossible, callAmount, hcall, minRaise, hmin, maxRaise, hmax,
    actions, hactions, chosen, hchosen, hm⟩ := h
  obtain rfl := (Option.some.inj hm).symm
  obtain ⟨hmem, hanswer⟩ := chooseAction_spec hchosen
  exact ⟨.request hread htype hhand hpossible hactions hcall hmin hmax hmem hanswer, rfl⟩

theorem read_welcome (hphase : client.phase = .awaitsWelcome) :
    client.read r = (client.close, []) ∨ ∃ playerId,
      client.read r = ({ client with playerId, phase := .awaitsJoinAck }, [.join client.name]) ∧
        Prompted client.name playerId r (.join client.name) := by
  unfold read
  cases hread : r.message with
  | none => exact .inl rfl
  | some json =>
    simp only [onMessage, hphase, onWelcome]
    split_ifs with htype
    · exact .inl rfl
    · cases hid : payloadString json "player_id" with
      | none => exact .inl rfl
      | some playerId =>
        exact .inr ⟨playerId, rfl, .welcome hread (not_not.mp htype) hid⟩

theorem read_joinAck (hphase : client.phase = .awaitsJoinAck) :
    client.read r = (client.close, []) ∨ client.read r = ({ client with phase := .playing }, []) := by
  unfold read
  cases r.message with
  | none => exact .inl rfl
  | some json =>
    simp only [onMessage, hphase, onJoinAck]
    split_ifs
    · exact .inl rfl
    · split
      · exact .inl rfl
      · exact .inr rfl

theorem read_closed (hphase : client.phase = .closed) : client.read r = (client, []) := by
  unfold read
  cases r.message with
  | none => rw [close, ← hphase]
  | some json => simp only [onMessage, hphase]

/-- A message read in the game. -/
structure Turn (r : Read) (client client' : Client) (out : List Message) : Prop where
  name : client'.name = client.name
  playerId : client'.playerId = client.playerId
  phase : client'.phase = .playing ∨ client'.phase = .closed
  said : out = [] ∨ ∃ m, out = [m] ∧ Prompted client.name client.playerId r m ∧ m.type ≠ "join"
  answered : client'.phase = .playing → out.countP (fun m => m.type = "action")
    = if r.type = some "action_request" then 1 else 0

theorem Turn.close (r : Read) (client : Client) : Turn r client client.close [] where
  name := rfl
  playerId := rfl
  phase := .inr rfl
  said := .inl rfl
  answered := fun h => by cases h

theorem Turn.silent (hphase : client.phase = .playing) (htype : r.type ≠ some "action_request")
    (stack : ℤ) : Turn r client { client with stack } [] where
  name := rfl
  playerId := rfl
  phase := .inl hphase
  said := .inl rfl
  answered := fun _ => by rw [if_neg htype, List.countP_nil]

theorem onActionRequest_turn {json : Json} (hphase : client.phase = .playing)
    (hread : r.message = some json) (htype : typeOf json = some "action_request") :
    Turn r client (client.onActionRequest r.dice r.undef json).1
      (client.onActionRequest r.dice r.undef json).2 := by
  unfold onActionRequest
  cases hanswer : answer r.dice r.undef json with
  | none => exact .close r client
  | some m =>
    obtain ⟨hprompted, haction⟩ := answer_prompted hread htype hanswer client.name client.playerId
    have hrequest : r.type = some "action_request" := by rw [Read.type, hread, Option.bind_some, htype]
    have hcount : [m].countP (fun m => m.type = "action") = 1 := by simp [haction]
    refine ⟨rfl, rfl, .inl hphase, .inr ⟨m, rfl, hprompted, ?_⟩, fun _ => ?_⟩
    · rw [haction]
      decide
    · rw [if_pos hrequest]
      exact hcount

theorem onHandCompleted_turn {json : Json} (hphase : client.phase = .playing)
    (hread : r.message = some json) (htype : typeOf json = some "hand_completed") :
    Turn r client (client.onHandCompleted r.undef json).1
      (client.onHandCompleted r.undef json).2 := by
  have hrequest : r.type ≠ some "action_request" := by
    rw [Read.type, hread, Option.bind_some, htype]
    decide
  unfold onHandCompleted
  cases hupdated : payloadField json "updated_stacks" with
  | none => exact .close r client
  | some updated =>
    simp only
    split_ifs with habsent
    · exact .silent hphase hrequest client.stack
    · cases hstack : ((updated.get client.playerId).bind (Json.getInt r.undef)).toOption with
      | none => exact .close r client
      | some stack =>
        have hsilent := Turn.silent hphase hrequest stack
        simp only
        split_ifs with hshort
        · refine ⟨rfl, rfl, .inl hphase, .inr ⟨_, rfl, ?_, by decide⟩, fun _ => ?_⟩
          · exact .short hread htype hupdated hstack (of_decide_eq_true hshort)
          · rw [if_neg hrequest]
            rfl
        · exact hsilent

theorem onTopUpAck_turn {json : Json} (hphase : client.phase = .playing)
    (hrequest : r.type ≠ some "action_request") :
    Turn r client (client.onTopUpAck r.undef json).1 (client.onTopUpAck r.undef json).2 := by
  unfold onTopUpAck
  cases payloadInt r.undef json "new_stack" with
  | none => exact .close r client
  | some stack => exact .silent hphase hrequest stack

theorem read_playing (hphase : client.phase = .playing) :
    Turn r client (client.read r).1 (client.read r).2 := by
  unfold read
  cases hread : r.message with
  | none => exact .close r client
  | some json =>
    simp only [onMessage, hphase, onPlaying]
    cases htype : typeOf json with
    | none => exact .close r client
    | some type =>
      have hrtype : r.type = some type := by rw [Read.type, hread, Option.bind_some, htype]
      simp only
      by_cases hrequest : type = "action_request"
      · simp only [hrequest, if_true, if_false, String.reduceEq]
        exact onActionRequest_turn hphase hread (hrequest ▸ htype)
      · have hnone : r.type ≠ some "action_request" := by
          rw [hrtype]
          exact fun h => hrequest (Option.some.inj h)
        split_ifs with hstarted happlied hcompleted htoppedUp herror
        · exact .silent hphase hnone client.stack
        · exact .silent hphase hnone client.stack
        · exact onHandCompleted_turn hphase hread (hcompleted ▸ htype)
        · exact onTopUpAck_turn hphase hnone
        · exact .close r client
        · exact .silent hphase hnone client.stack

/-! ### The whole connection -/

def Read.isRequest (r : Read) : Bool := r.type = some "action_request"

structure Conversed (name : String) (rs : List Read) : Prop where
  named : ((machine name).run rs).name = name
  welcome : ((machine name).run rs).phase = .awaitsWelcome → rs = []
  joinAck : ((machine name).run rs).phase = .awaitsJoinAck → rs.length = 1
  playing : ((machine name).run rs).phase = .playing → 2 ≤ rs.length
  said : ∀ x ∈ (machine name).log rs, x.2 = [] ∨
    ∃ m, x.2 = [m] ∧ Prompted name ((machine name).run rs).playerId x.1 m
  joins : ∀ x ∈ ((machine name).log rs).tail, ∀ m ∈ x.2, m.type ≠ "join"
  answered : ((machine name).run rs).phase ≠ .closed →
    ((machine name).trace rs).countP (fun m => m.type = "action")
      = (rs.drop 2).countP Read.isRequest

theorem Conversed.tail {name : String} {rs : List Read} (h : Conversed name rs) {r : Read}
    (hjoin : ∀ m ∈ (machine name).emits ((machine name).run rs) r, m.type ≠ "join") :
    ∀ x ∈ ((machine name).log (rs ++ [r])).tail, ∀ m ∈ x.2, m.type ≠ "join" := by
  intro x hx
  rw [Machine.log_concat] at hx
  by_cases hlog : (machine name).log rs = []
  · simp [hlog] at hx
  · rw [List.tail_append_of_ne_nil hlog] at hx
    rcases List.mem_append.mp hx with hbefore | hlast
    · exact h.joins x hbefore
    · obtain rfl := List.mem_singleton.mp hlast
      exact hjoin

/-- The bot reads in the game. -/
theorem Conversed.turn {name : String} {rs : List Read} (h : Conversed name rs) (r : Read)
    (hphase : ((machine name).run rs).phase = .playing) : Conversed name (rs ++ [r]) := by
  have hturn : Turn r ((machine name).run rs) ((machine name).run (rs ++ [r]))
      ((machine name).emits ((machine name).run rs) r) := by
    rw [Machine.run_concat]
    exact read_playing hphase
  have hlong := h.playing hphase
  have hopen := hturn.phase
  constructor
  case named => exact hturn.name.trans h.named
  case welcome =>
    intro hwelcome
    simp only [hwelcome, reduceCtorEq, or_self] at hopen
  case joinAck =>
    intro hjoinAck
    simp only [hjoinAck, reduceCtorEq, or_self] at hopen
  case playing =>
    intro _
    rw [List.length_append]
    omega
  case said =>
    intro x hx
    rw [Machine.log_concat] at hx
    rw [hturn.playerId]
    rcases List.mem_append.mp hx with hbefore | hlast
    · exact h.said x hbefore
    · obtain rfl := List.mem_singleton.mp hlast
      obtain hnone | ⟨m, hm, hprompted, -⟩ := hturn.said
      · exact .inl hnone
      · rw [h.named] at hprompted
        exact .inr ⟨m, hm, hprompted⟩
  case joins =>
    refine h.tail fun m hm => ?_
    rcases hturn.said with hnone | ⟨said, hsaid, -, hjoin⟩
    · simp [hnone] at hm
    · rw [hsaid, List.mem_singleton] at hm
      exact hm ▸ hjoin
  case answered =>
    intro hplays
    have hanswered := hturn.answered (hopen.resolve_right hplays)
    have hbefore := h.answered (by rw [hphase]; decide)
    rw [Machine.trace_concat, List.countP_append, List.drop_append_of_le_length hlong,
      List.countP_append, hbefore, hanswered]
    simp [Read.isRequest, List.countP_cons]

/-- The bot reads and says nothing: it is closed, or its join is acknowledged. -/
theorem Conversed.silent {name : String} {rs : List Read} (h : Conversed name rs) {r : Read}
    {client : Client} (hread : ((machine name).run rs).read r = (client, []))
    (hname : client.name = ((machine name).run rs).name)
    (hid : client.playerId = ((machine name).run rs).playerId)
    (hphase : client.phase = .closed ∨
      ((machine name).run rs).phase = .awaitsJoinAck ∧ client.phase = .playing) :
    Conversed name (rs ++ [r]) := by
  have hrun : (machine name).run (rs ++ [r]) = client := by
    rw [Machine.run_concat]
    exact congrArg Prod.fst hread
  have hout : (machine name).emits ((machine name).run rs) r = [] := congrArg Prod.snd hread
  have hone : client.phase ≠ .closed → rs.length = 1 := fun hopen =>
    h.joinAck (hphase.resolve_left hopen).1
  have hplays : client.phase = .closed ∨ client.phase = .playing := hphase.imp_right And.right
  constructor
  case named => rw [hrun, hname, h.named]
  case welcome =>
    intro hwelcome
    simp only [hrun ▸ hwelcome, reduceCtorEq, or_self] at hplays
  case joinAck =>
    intro hjoinAck
    simp only [hrun ▸ hjoinAck, reduceCtorEq, or_self] at hplays
  case playing =>
    intro hplaying
    have hlength := hone (by rw [← hrun, hplaying]; decide)
    rw [List.length_append, List.length_singleton]
    omega
  case said =>
    intro x hx
    rw [Machine.log_concat, hout] at hx
    rw [hrun, hid]
    rcases List.mem_append.mp hx with hbefore | hlast
    · exact h.said x hbefore
    · obtain rfl := List.mem_singleton.mp hlast
      exact .inl rfl
  case joins =>
    refine h.tail fun m hm => ?_
    rw [hout] at hm
    cases hm
  case answered =>
    intro hopen
    rw [hrun] at hopen
    have hlength := hone hopen
    have hbefore := h.answered (by
      rw [(hphase.resolve_left hopen).1]
      decide)
    rw [Machine.trace_concat, hout, List.append_nil, hbefore, List.drop_eq_nil_of_le (by omega),
      List.drop_eq_nil_of_le]
    rw [List.length_append, List.length_singleton]
    omega

theorem Conversed.joined {name playerId : String} {r : Read} (hread : (new name).read r
      = ({ new name with playerId, phase := .awaitsJoinAck }, [.join name]))
    (hprompted : Prompted name playerId r (.join name)) : Conversed name [r] := by
  have hrun : (machine name).run [r] = { new name with playerId, phase := .awaitsJoinAck } :=
    congrArg Prod.fst hread
  have hout : (machine name).emits (new name) r = [.join name] := congrArg Prod.snd hread
  have hlog : (machine name).log [r] = [(r, [.join name])] := by
    rw [← hout]
    rfl
  have htrace : (machine name).trace [r] = [.join name] := by
    rw [← hout]
    exact List.append_nil _
  constructor
  case named => rw [hrun, new]
  case welcome => simp [hrun]
  case joinAck => simp
  case playing => simp [hrun]
  case said =>
    intro x hx
    rw [hlog, List.mem_singleton] at hx
    rw [hx, hrun]
    exact .inr ⟨_, rfl, hprompted⟩
  case joins => simp [hlog]
  case answered =>
    intro _
    rw [htrace]
    rfl

theorem conversed (name : String) (rs : List Read) : Conversed name rs := by
  induction rs using List.reverseRecOn with
  | nil => exact ⟨rfl, fun _ => rfl, nofun, nofun, by simp, by simp, fun _ => rfl⟩
  | append_singleton rs r ih =>
    cases hphase : ((machine name).run rs).phase with
    | awaitsWelcome =>
      obtain rfl := ih.welcome hphase
      rcases read_welcome (r := r) hphase with hclosed | ⟨playerId, hread, hprompted⟩
      · exact ih.silent hclosed rfl rfl (.inl rfl)
      · exact Conversed.joined hread hprompted
    | awaitsJoinAck =>
      rcases read_joinAck (r := r) hphase with hclosed | hplays
      · exact ih.silent hclosed rfl rfl (.inl rfl)
      · exact ih.silent hplays rfl rfl (.inr ⟨hphase, rfl⟩)
    | playing => exact ih.turn r hphase
    | closed => exact ih.silent (read_closed hphase) rfl rfl (.inl hphase)

/-- Against any server the bot says only what it is prompted to say, joins once
and at first, and while it plays has answered each request it read. -/
theorem speaks_when_spoken_to (name : String) (rs : List Read) :
    (∀ x ∈ (machine name).log rs, x.2 = [] ∨
      ∃ m, x.2 = [m] ∧ Prompted name ((machine name).run rs).playerId x.1 m) ∧
    (∀ x ∈ ((machine name).log rs).tail, ∀ m ∈ x.2, m.type ≠ "join") ∧
    (((machine name).run rs).phase = .playing →
      ((machine name).trace rs).countP (fun m => m.type = "action")
        = (rs.drop 2).countP Read.isRequest) :=
  ⟨(conversed name rs).said, (conversed name rs).joins,
    fun hphase => (conversed name rs).answered (by rw [hphase]; decide)⟩

example : (machine "Bot").trace (
    [.typed "welcome" (.object [("player_id", .string "p")]),
      .typed "join_ack" (.object [("player_id", .string "p"), ("seat", .ofInt 0)]),
      .typed "action_request" (.object [("hand_id", .string "hand_1"),
        ("possible_actions", .array [.string "fold", .string "call"]), ("call_amount", .ofInt 2),
        ("min_raise", .ofInt 4), ("max_raise", .ofInt 400)])].map
      fun json => ⟨some json, .facing 1, 0⟩)
    = [.join "Bot", .action "hand_1" "call" 2] := by decide +kernel

end HeadsUp.Client
