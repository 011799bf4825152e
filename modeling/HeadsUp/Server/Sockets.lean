import HeadsUp.Server.SessionMaps

/-!
# Accepting and reading (`server/websocket_session.cpp`)

A session is welcomed when its handshake is accepted, and only then reads and
pings: what reaches the game session from it comes after the welcome.
-/

namespace HeadsUp.Server
open HeadsUp.Lib

inductive SocketPhase where
  | accepting | failed | accepted
  deriving DecidableEq, Repr

/-- The phase of each session, created or not. -/
abbrev Sockets := SessionId → SocketPhase

inductive Received where
  | error
  | empty
  | text (message : Option Common.Json)

/-- The handlers that call the game session; its timers run beside them. -/
inductive SocketInput where
  | onAccept (session : SessionId) (ec : Bool) (playerId : String)
  | onRead (session : SessionId) (received : Received) (c : Choices)
  | onPongTimeout (session : SessionId) (c : Choices)
  | onPong (session : SessionId) (ec : Bool) (c : Choices)
  | timerExpires (i : ℕ)
  | timerRuns (i : ℕ) (c : Choices)

namespace Sockets

def onAccept (sockets : Sockets) (session : SessionId) (ec : Bool) (playerId : String) :
    Sockets × List Event :=
  if ec then (Function.update sockets session .failed, [])
  else (Function.update sockets session .accepted, [.connect session playerId])

def onRead (session : SessionId) (c : Choices) : Received → List Event
  | .error => [.disconnect session c]
  | .empty => []
  | .text message => [.message session message c]

/-- The handshake completes once; an accepted session may read, fail or time out
at any time. -/
def step (sockets : Sockets) : SocketInput → Sockets × List Event
  | .onAccept session ec playerId =>
    if sockets session = .accepting then sockets.onAccept session ec playerId else (sockets, [])
  | .onRead session received c =>
    (sockets, if sockets session = .accepted then onRead session c received else [])
  | .onPongTimeout session c =>
    (sockets, if sockets session = .accepted then [.disconnect session c] else [])
  | .onPong session ec c =>
    (sockets, if sockets session = .accepted ∧ ec = true then [.disconnect session c] else [])
  | .timerExpires i => (sockets, [.timerExpires i])
  | .timerRuns i c => (sockets, [.timerRuns i c])

def machine : Machine Sockets SocketInput Event := ⟨fun _ => .accepting, step⟩

theorem step_cases (sockets : Sockets) (input : SocketInput) :
    (∀ session, sockets session ≠ .accepting → (sockets.step input).1 session ≠ .accepting) ∧
      ((sockets.step input).2 = [] ∨ ∃ e, (sockets.step input).2 = [e] ∧
        (∀ session, e.session = some session → (sockets.step input).1 session = .accepted) ∧
        ∀ session, e.welcomed = some session → sockets session = .accepting) := by
  cases input with
  | onAccept session ec playerId =>
    by_cases hphase : sockets session = .accepting
    · have hstep : sockets.step (.onAccept session ec playerId)
          = sockets.onAccept session ec playerId := if_pos hphase
      rw [hstep]
      refine ⟨fun other hother => ?_, ?_⟩
      · have hne : other ≠ session := fun hh => hother (hh ▸ hphase)
        cases ec <;> simp [onAccept, Function.update_of_ne hne, hother]
      · cases ec with
        | true => exact .inl rfl
        | false =>
          refine .inr ⟨.connect session playerId, rfl, fun other hh => ?_, fun other hh => ?_⟩
          · obtain rfl := Option.some.inj hh
            simp [onAccept]
          · exact Option.some.inj hh ▸ hphase
    · have hstep : sockets.step (.onAccept session ec playerId) = (sockets, []) := if_neg hphase
      rw [hstep]
      exact ⟨fun _ hother => hother, .inl rfl⟩
  | onRead session received c =>
    refine ⟨fun _ hother => hother, ?_⟩
    by_cases hphase : sockets session = .accepted
    · simp only [step, hphase, if_true]
      cases received with
      | error =>
        exact .inr ⟨_, rfl, fun _ hh => Option.some.inj hh ▸ hphase, by simp [Event.welcomed]⟩
      | empty => exact .inl rfl
      | text message =>
        exact .inr ⟨_, rfl, fun _ hh => Option.some.inj hh ▸ hphase, by simp [Event.welcomed]⟩
    · exact .inl (if_neg hphase)
  | onPongTimeout session c =>
    refine ⟨fun _ hother => hother, ?_⟩
    by_cases hphase : sockets session = .accepted
    · exact .inr ⟨_, if_pos hphase, fun _ hh => Option.some.inj hh ▸ hphase,
        by simp [Event.welcomed]⟩
    · exact .inl (if_neg hphase)
  | onPong session ec c =>
    refine ⟨fun _ hother => hother, ?_⟩
    by_cases hphase : sockets session = .accepted ∧ ec = true
    · exact .inr ⟨_, if_pos hphase, fun _ hh => Option.some.inj hh ▸ hphase.1,
        by simp [Event.welcomed]⟩
    · exact .inl (if_neg hphase)
  | timerExpires i =>
    exact ⟨fun _ hother => hother, .inr ⟨_, rfl, by simp [Event.session], by simp [Event.welcomed]⟩⟩
  | timerRuns i c =>
    exact ⟨fun _ hother => hother, .inr ⟨_, rfl, by simp [Event.session], by simp [Event.welcomed]⟩⟩

/-- What reaches the game session satisfies the assumption on its runs. -/
theorem trace_fresh (inputs : List SocketInput) :
    FreshSessions (machine.trace inputs) ∧ ∀ e ∈ machine.trace inputs, ∀ session,
      e.session = some session → machine.run inputs session ≠ .accepting := by
  induction inputs using List.reverseRecOn with
  | nil => exact ⟨List.Pairwise.nil, fun e he => nomatch he⟩
  | append_singleton inputs input ih =>
    obtain ⟨hfresh, hseen⟩ := ih
    rw [Machine.trace_concat, Machine.run_concat]
    obtain ⟨hkept, hout⟩ := step_cases (machine.run inputs) input
    have hold : ∀ e ∈ machine.trace inputs, ∀ session, e.session = some session →
        machine.next (machine.run inputs) input session ≠ .accepting :=
      fun e he session hsession => hkept session (hseen e he session hsession)
    rcases hout with hnone | ⟨e, hone, haccepted, hwelcomed⟩
    · have hemits : machine.emits (machine.run inputs) input = [] := hnone
      rw [hemits, List.append_nil]
      exact ⟨hfresh, hold⟩
    · have hemits : machine.emits (machine.run inputs) input = [e] := hone
      rw [hemits]
      refine ⟨freshSessions_concat.mpr ⟨hfresh, fun e' he hsome hsame => ?_⟩, ?_⟩
      · obtain ⟨session, hsession⟩ := Option.isSome_iff_exists.mp hsome
        exact hseen e' he session (hsame.trans hsession) (hwelcomed session hsession)
      · intro e' he session hsession
        rcases List.mem_append.mp he with he | he
        · exact hold e' he session hsession
        · rw [List.mem_singleton.mp he] at hsession
          have hnext : machine.next (machine.run inputs) input session = .accepted :=
            haccepted session hsession
          rw [hnext]
          decide

theorem served_paired (config : Config) {inputs : List SocketInput}
    (hids : FreshIds (machine.trace inputs)) :
    GameSession.Paired (machine.trace inputs)
      ((GameSession.machine config).run (machine.trace inputs)) :=
  GameSession.run_paired config (trace_fresh inputs).1 hids

end Sockets
end HeadsUp.Server
