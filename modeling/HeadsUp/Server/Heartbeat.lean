import HeadsUp.Lib.Executor
import HeadsUp.Lib.Machine

/-!
# Pings and pongs (`server/websocket_session.cpp`)

`start_ping_timer`, `on_ping_timer`, `on_pong_timeout`, `on_pong` and the control
callback, on the thread of the session. `on_pong` is the completion of the ping's
write; a pong of the client comes to the control callback at any time.
-/

namespace HeadsUp.Server
open HeadsUp.Lib

def pingIntervalMs : ℕ := 30000
def pongTimeoutMs : ℕ := 10000

inductive SocketTimer where
  | ping | pongTimeout
  deriving DecidableEq, Repr

instance : Fintype SocketTimer := ⟨{.ping, .pongTimeout}, fun timer => by cases timer <;> decide⟩

inductive PingHandler where
  | onPingTimer
  | onPongTimeout
  | onPong (ec : Bool)
  deriving DecidableEq, Repr

def PingHandler.inChain : PingHandler → Bool
  | .onPongTimeout => false
  | _ => true

structure Heartbeat where
  executor : Executor SocketTimer PingHandler
  pongPending : Bool
  /-- Pings handed to `async_ping`. -/
  pinging : ℕ

/-- What goes out and comes in with its time; the game session hears of the last
two as `onDisconnect`. -/
inductive Beat where
  | pinged (time : ℕ)
  | ponged (time : ℕ)
  | failed (time : ℕ)
  | timedOut (time : ℕ)
  deriving DecidableEq, Repr

inductive HeartbeatEvent where
  | passes (ms : ℕ)
  | expires (timer : SocketTimer)
  | runs
  | pingWritten (ec : Bool)
  | pongFrame
  deriving DecidableEq, Repr

namespace Heartbeat

def startPingTimer (s : Heartbeat) : Heartbeat :=
  { s with executor := s.executor.wait .ping pingIntervalMs .onPingTimer }

def new : Heartbeat := startPingTimer ⟨.new, false, 0⟩

def onPingTimer (s : Heartbeat) : Heartbeat × List Beat :=
  ({ s with
    pongPending := true
    executor := s.executor.wait .pongTimeout pongTimeoutMs .onPongTimeout
    pinging := s.pinging + 1 }, [.pinged s.executor.now])

/-- The session goes on, as does the chain of its pings. -/
def onPongTimeout (s : Heartbeat) : Heartbeat × List Beat :=
  (s, if s.pongPending then [.timedOut s.executor.now] else [])

def onPong (s : Heartbeat) (ec : Bool) : Heartbeat × List Beat :=
  if ec then (s, [.failed s.executor.now]) else (s.startPingTimer, [])

/-- The control callback. -/
def onPongFrame (s : Heartbeat) : Heartbeat × List Beat :=
  ({ s with executor := s.executor.cancel .pongTimeout, pongPending := false },
    [.ponged s.executor.now])

def handle (s : Heartbeat) : PingHandler → Heartbeat × List Beat
  | .onPingTimer => s.onPingTimer
  | .onPongTimeout => s.onPongTimeout
  | .onPong ec => s.onPong ec

def step (s : Heartbeat) : HeartbeatEvent → Heartbeat × List Beat
  | .passes ms => ({ s with executor := s.executor.advance ms }, [])
  | .expires timer => ({ s with executor := s.executor.expire timer }, [])
  | .runs =>
    match s.executor.ready with
    | [] => (s, [])
    | handler :: rest => { s with executor := { s.executor with ready := rest } }.handle handler
  | .pingWritten ec =>
    if s.pinging = 0 then (s, [])
    else ({ s with executor := s.executor.post (.onPong ec), pinging := s.pinging - 1 }, [])
  | .pongFrame => s.onPongFrame

def machine : Machine Heartbeat HeartbeatEvent Beat := ⟨new, step⟩

end Heartbeat

/-! ### What a client may be blamed for -/

/-- The last ping: it has been answered (or there was none), or it has not and
the client has been given up since or not. -/
inductive Pulse where
  | answered
  | asked (time : ℕ)
  | lost (time : ℕ)
  deriving DecidableEq, Repr

namespace Pulse

def beat (pulse : Pulse) : Beat → Pulse
  | .pinged t => .asked t
  | .ponged _ => .answered
  | .failed _ => pulse
  | .timedOut _ =>
    match pulse with
    | .asked t => .lost t
    | _ => pulse

def since : Pulse → Option ℕ
  | .answered => none
  | .asked t => some t
  | .lost t => some t

end Pulse

def pulse (out : List Beat) : Pulse := out.foldl Pulse.beat .answered

theorem pulse_concat (out : List Beat) (b : Beat) : pulse (out ++ [b]) = (pulse out).beat b :=
  List.foldl_concat ..

theorem mem_of_since {out : List Beat} {t : ℕ} (h : (pulse out).since = some t) :
    .pinged t ∈ out := by
  induction out using List.reverseRecOn with
  | nil => cases h
  | append_singleton out b ih =>
    rw [pulse_concat] at h
    cases b with
    | pinged u =>
      obtain rfl := Option.some.inj h
      simp
    | ponged u => cases h
    | failed u => exact List.mem_append_left _ (ih h)
    | timedOut u =>
      refine List.mem_append_left _ (ih ?_)
      cases hp : pulse out <;> rw [hp] at h <;> exact h

/-- The times of the pings. -/
def pings (out : List Beat) : List ℕ :=
  out.filterMap fun
    | .pinged t => some t
    | _ => none

theorem mem_pings {out : List Beat} {t : ℕ} : t ∈ pings out ↔ .pinged t ∈ out := by
  rw [pings, List.mem_filterMap]
  constructor
  · intro h
    obtain ⟨b, hb, ht⟩ := h
    cases b with
    | pinged u =>
      obtain rfl := Option.some.inj ht
      exact hb
    | _ => cases ht
  · intro h
    exact ⟨_, h, rfl⟩

def failures (out : List Beat) : ℕ :=
  out.countP fun
    | .failed _ => true
    | _ => false

/-! ### The invariant -/

namespace Heartbeat

/-- Where the chain of pings can go on: the wait for the next ping, a handler of
the chain that is queued, or a ping that is being written. -/
def chain (s : Heartbeat) : ℕ :=
  (s.executor.waits .ping).toList.length
    + s.executor.ready.countP PingHandler.inChain + s.pinging

structure Beating (out : List Beat) (s : Heartbeat) : Prop where
  past : ∀ t, .pinged t ∈ out → t ≤ s.executor.now
  ping : ∀ w, s.executor.waits .ping = some w → w.handler = .onPingTimer ∧
    w.deadline ≤ s.executor.now + pingIntervalMs ∧
    ∀ t, .pinged t ∈ out → t + pingIntervalMs ≤ w.deadline
  timeout : ∀ w, s.executor.waits .pongTimeout = some w → w.handler = .onPongTimeout ∧
    ∃ t, pulse out = .asked t ∧ w.deadline = t + pongTimeoutMs
  -- the next ping goes out only when the last one has been answered or given up
  next : .onPingTimer ∈ s.executor.ready → s.executor.waits .pongTimeout = none ∧
    (∃ before, s.executor.ready = before ++ [.onPingTimer]) ∧
    ∀ t, .pinged t ∈ out → t + pingIntervalMs ≤ s.executor.now
  late : .onPongTimeout ∈ s.executor.ready → s.executor.waits .pongTimeout = none ∧
    ∀ t, (pulse out).since = some t → t + pongTimeoutMs ≤ s.executor.now
  watched : ∀ t, pulse out = .asked t →
    s.executor.waits .pongTimeout ≠ none ∨ .onPongTimeout ∈ s.executor.ready
  pending : s.pongPending = (pulse out).since.isSome
  one : s.chain + failures out = 1
  spaced : (pings out).Pairwise fun t u => t + pingIntervalMs ≤ u

theorem Beating.new : Beating [] new where
  past := by simp
  ping := by
    intro w hw
    obtain rfl := Option.some.inj hw
    exact ⟨rfl, le_refl _, by simp⟩
  timeout := by
    intro w hw
    cases hw
  next := by simp [Heartbeat.new, startPingTimer, Executor.wait, Executor.new]
  late := by simp [Heartbeat.new, startPingTimer, Executor.wait, Executor.new]
  watched := by
    intro t ht
    cases ht
  pending := rfl
  one := rfl
  spaced := List.Pairwise.nil

/-! ### Steps -/

variable {out : List Beat} {s : Heartbeat}

theorem Beating.passes (h : Beating out s) (ms : ℕ) :
    Beating out { s with executor := s.executor.advance ms } where
  past := by
    intro t ht
    have hpast := h.past t ht
    simp only [Executor.advance_now]
    omega
  ping := by
    intro w hw
    obtain ⟨hhandler, hdeadline, hpings⟩ := h.ping w hw
    refine ⟨hhandler, ?_, hpings⟩
    simp only [Executor.advance_now]
    omega
  timeout := h.timeout
  next := by
    intro hnext
    obtain ⟨hnone, hlast, hpings⟩ := h.next hnext
    refine ⟨hnone, hlast, fun t ht => ?_⟩
    have hping := hpings t ht
    simp only [Executor.advance_now]
    omega
  late := by
    intro hlate
    obtain ⟨hnone, hsince⟩ := h.late hlate
    refine ⟨hnone, fun t ht => ?_⟩
    have hdue := hsince t ht
    simp only [Executor.advance_now]
    omega
  watched := h.watched
  pending := h.pending
  one := h.one
  spaced := h.spaced

/-- A wait for a pong would have been due before the one for the next ping. -/
theorem Beating.expiresPing (h : Beating out s) {w : TimerWait PingHandler}
    (hw : s.executor.waits .ping = some w) (hdue : s.executor.Due w) :
    Beating out { s with executor := (s.executor.cancel .ping).post w.handler } := by
  obtain ⟨hhandler, -, hpings⟩ := h.ping w hw
  obtain ⟨hnow, hfirst⟩ := hdue
  have hnone : s.executor.waits .pongTimeout = none := by
    by_contra hsome
    obtain ⟨v, hv⟩ := Option.ne_none_iff_exists'.mp hsome
    obtain ⟨-, t, hasked, hdeadline⟩ := h.timeout v hv
    have hping := hpings t (mem_of_since (by rw [hasked]; rfl))
    have hle := hfirst .pongTimeout v hv
    rw [pingIntervalMs] at hping
    rw [pongTimeoutMs] at hdeadline
    omega
  have hone := h.one
  simp only [chain, hw, Option.toList_some, List.length_singleton] at hone
  rw [hhandler]
  refine ⟨h.past, ?_, ?_, ?_, ?_, ?_, h.pending, ?_, h.spaced⟩
  · simp
  · simp [hnone]
  · intro _
    exact ⟨by simp [hnone], ⟨_, rfl⟩, fun t ht => (hpings t ht).trans hnow⟩
  · intro hlate
    exact ⟨by simp [hnone], (h.late (by simpa using hlate)).2⟩
  · intro t ht
    exact .inr (List.mem_append_left _ ((h.watched t ht).resolve_left (not_not.mpr hnone)))
  · simp [chain, PingHandler.inChain]
    omega

theorem Beating.expiresPongTimeout (h : Beating out s) {w : TimerWait PingHandler}
    (hw : s.executor.waits .pongTimeout = some w) (hdue : s.executor.Due w) :
    Beating out { s with executor := (s.executor.cancel .pongTimeout).post w.handler } := by
  obtain ⟨hhandler, t, hasked, hdeadline⟩ := h.timeout w hw
  have hping : .onPingTimer ∉ s.executor.ready := by
    intro hmem
    rw [(h.next hmem).1] at hw
    cases hw
  rw [hhandler]
  refine ⟨h.past, ?_, ?_, ?_, ?_, ?_, h.pending, ?_, h.spaced⟩
  · simpa using h.ping
  · simp
  · simp [hping]
  · intro _
    refine ⟨by simp, fun u hu => ?_⟩
    rw [hasked] at hu
    obtain rfl := Option.some.inj hu
    exact hdeadline ▸ hdue.1
  · intro u _
    exact .inr (by simp)
  · simpa [chain, PingHandler.inChain] using h.one

theorem Beating.expires (h : Beating out s) (timer : SocketTimer) :
    Beating out { s with executor := s.executor.expire timer } := by
  rcases s.executor.expire_cases timer with hsame | ⟨w, hw, hdue, heq⟩
  · rw [hsame]
    exact h
  · rw [heq]
    cases timer with
    | ping => exact h.expiresPing hw hdue
    | pongTimeout => exact h.expiresPongTimeout hw hdue

/-- A handler of the chain that runs is the only place where the chain goes on. -/
theorem Beating.rest (h : Beating out s) {handler : PingHandler} {rest : List PingHandler}
    (hready : s.executor.ready = handler :: rest) (hchain : handler.inChain = true) :
    s.executor.waits .ping = none ∧ s.pinging = 0 ∧ failures out = 0 ∧
      rest.countP PingHandler.inChain = 0 := by
  have hone := h.one
  simp only [chain, hready, List.countP_cons, hchain, if_true] at hone
  refine ⟨?_, by omega, by omega, by omega⟩
  cases hwait : s.executor.waits .ping with
  | none => rfl
  | some w =>
    simp only [hwait, Option.toList_some, List.length_singleton] at hone
    omega

theorem not_mem_of_countP {ready : List PingHandler}
    (h : ready.countP PingHandler.inChain = 0) : .onPingTimer ∉ ready := by
  intro hmem
  exact List.countP_eq_zero.mp h _ hmem rfl

theorem pings_concat (out : List Beat) (t : ℕ) : pings (out ++ [.pinged t]) = pings out ++ [t] := by
  simp [pings]

/-- Nothing else is queued when a ping goes out. -/
theorem Beating.onPingTimer (h : Beating out s) {rest : List PingHandler}
    (hready : s.executor.ready = .onPingTimer :: rest) :
    let s' : Heartbeat := { s with executor := { s.executor with ready := rest } }
    Beating (out ++ s'.onPingTimer.2) s'.onPingTimer.1 := by
  intro s'
  obtain ⟨hping, hzero, hfailed, hcount⟩ := h.rest hready rfl
  obtain ⟨-, ⟨before, hlast⟩, hpings⟩ := h.next (by simp [hready])
  have hnil : rest = [] := by
    rcases before with _ | ⟨first, before⟩
    · rw [hready, List.nil_append] at hlast
      exact (List.cons.inj hlast).2
    · rw [hready, List.cons_append] at hlast
      refine absurd ?_ (not_mem_of_countP hcount)
      rw [(List.cons.inj hlast).2]
      simp
  subst hnil
  have hpulse : pulse (out ++ [.pinged s.executor.now]) = .asked s.executor.now :=
    pulse_concat out _
  refine ⟨?_, ?_, ?_, ?_, ?_, ?_, ?_, ?_, ?_⟩
  · intro t ht
    rcases List.mem_append.mp ht with ht | ht
    · exact h.past t ht
    · obtain rfl := Beat.pinged.inj (List.mem_singleton.mp ht)
      exact le_refl _
  · simp [s', Heartbeat.onPingTimer, hping]
  · intro w hw
    obtain rfl := Option.some.inj hw
    exact ⟨rfl, _, hpulse, rfl⟩
  · simp [s', Heartbeat.onPingTimer]
  · simp [s', Heartbeat.onPingTimer]
  · intro t _
    exact .inl (by simp [s', Heartbeat.onPingTimer])
  · exact (congrArg (fun p => p.since.isSome) hpulse).symm
  · have hsame : failures (out ++ [.pinged s.executor.now]) = failures out := by simp [failures]
    simp only [s', Heartbeat.onPingTimer, hsame, chain, hfailed, hzero]
    simp [hping]
  · simp only [s', Heartbeat.onPingTimer, pings_concat]
    refine List.pairwise_append.mpr ⟨h.spaced, List.pairwise_singleton _ _, ?_⟩
    intro t ht u hu
    rw [List.mem_singleton.mp hu]
    exact hpings t (mem_pings.mp ht)

/-- A report gives the last ping up, if it has not been answered. -/
theorem Beating.onPongTimeout (h : Beating out s) {rest : List PingHandler}
    (hready : s.executor.ready = .onPongTimeout :: rest) :
    let s' : Heartbeat := { s with executor := { s.executor with ready := rest } }
    Beating (out ++ s'.onPongTimeout.2) s'.onPongTimeout.1 := by
  intro s'
  obtain ⟨hnone, hsince⟩ := h.late (by simp [hready])
  have hmem : ∀ handler ∈ rest, handler ∈ s.executor.ready := by
    intro handler hhandler
    rw [hready]
    exact List.mem_cons_of_mem _ hhandler
  have hone : s'.chain + failures out = 1 := by
    have hone := h.one
    simpa [chain, hready, PingHandler.inChain, s'] using hone
  have hlast : .onPingTimer ∈ rest → ∃ before, rest = before ++ [.onPingTimer] := by
    intro hnext
    obtain ⟨-, ⟨before, hlast⟩, -⟩ := h.next (hmem _ hnext)
    rw [hready] at hlast
    rcases before with _ | ⟨first, before⟩
    · cases (List.cons.inj hlast).1
    · exact ⟨before, (List.cons.inj hlast).2⟩
  cases hp : s.pongPending with
  | false =>
    have hout : s'.onPongTimeout = (s', []) := by simp [Heartbeat.onPongTimeout, s', hp]
    rw [hout, List.append_nil]
    refine ⟨h.past, h.ping, h.timeout, fun hnext => ?_, fun hlate => h.late (hmem _ hlate), ?_,
      h.pending, hone, h.spaced⟩
    · exact ⟨hnone, hlast hnext, (h.next (hmem _ hnext)).2.2⟩
    · intro t ht
      have hpending := h.pending
      rw [hp, ht] at hpending
      cases hpending
  | true =>
    have hout : s'.onPongTimeout = (s', [.timedOut s.executor.now]) := by
      simp [Heartbeat.onPongTimeout, s', hp]
    have hpings : ∀ t, .pinged t ∈ out ++ [.timedOut s.executor.now] → .pinged t ∈ out := by simp
    have hpulse : (pulse (out ++ [.timedOut s.executor.now])).since = (pulse out).since ∧
        ∀ t, pulse (out ++ [.timedOut s.executor.now]) ≠ .asked t := by
      rw [pulse_concat]
      cases pulse out <;> simp [Pulse.beat, Pulse.since]
    rw [hout]
    refine ⟨fun t ht => h.past t (hpings t ht), fun w hw => ?_, fun w hw => ?_, fun hnext => ?_,
      fun hlate => ?_, fun t ht => absurd ht (hpulse.2 t), ?_, ?_, ?_⟩
    · obtain ⟨hhandler, hdeadline, hle⟩ := h.ping w hw
      exact ⟨hhandler, hdeadline, fun t ht => hle t (hpings t ht)⟩
    · have hsome : s.executor.waits .pongTimeout = some w := hw
      rw [hnone] at hsome
      cases hsome
    · exact ⟨hnone, hlast hnext, fun t ht => (h.next (hmem _ hnext)).2.2 t (hpings t ht)⟩
    · rw [hpulse.1]
      exact h.late (hmem _ hlate)
    · rw [hpulse.1]
      exact h.pending
    · simpa [failures] using hone
    · simpa [pings] using h.spaced

theorem Beating.onPong (h : Beating out s) {ec : Bool} {rest : List PingHandler}
    (hready : s.executor.ready = .onPong ec :: rest) :
    let s' : Heartbeat := { s with executor := { s.executor with ready := rest } }
    Beating (out ++ (s'.onPong ec).2) (s'.onPong ec).1 := by
  intro s'
  obtain ⟨hping, hzero, hfailed, hcount⟩ := h.rest hready rfl
  have hmem : ∀ handler ∈ rest, handler ∈ s.executor.ready := by
    intro handler hhandler
    rw [hready]
    exact List.mem_cons_of_mem _ hhandler
  have hnext := not_mem_of_countP hcount
  have hwatched : ∀ t, pulse out = .asked t →
      s.executor.waits .pongTimeout ≠ none ∨ .onPongTimeout ∈ rest := by
    intro t ht
    refine (h.watched t ht).imp_right fun hready' => ?_
    rw [hready] at hready'
    simpa using hready'
  cases ec with
  | true =>
    have hpings : ∀ t, .pinged t ∈ out ++ [.failed s.executor.now] → .pinged t ∈ out := by simp
    have hpulse : pulse (out ++ [.failed s.executor.now]) = pulse out := pulse_concat out _
    have hout : s'.onPong true = (s', [.failed s.executor.now]) := rfl
    rw [hout]
    refine ⟨fun t ht => h.past t (hpings t ht), fun w hw => ?_, ?_, fun hh => absurd hh hnext,
      fun hlate => ?_, ?_, ?_, ?_, ?_⟩
    · have hsome : s.executor.waits .ping = some w := hw
      rw [hping] at hsome
      cases hsome
    · rw [hpulse]
      exact h.timeout
    · rw [hpulse]
      exact h.late (hmem _ hlate)
    · rw [hpulse]
      exact hwatched
    · rw [hpulse]
      exact h.pending
    · have hone : failures (out ++ [.failed s.executor.now]) = failures out + 1 := by
        simp [failures]
      rw [hone]
      simp [chain, s', hping, hcount, hzero, hfailed]
    · simpa [pings] using h.spaced
  | false =>
    have hout : s'.onPong false = (s'.startPingTimer, []) := rfl
    rw [hout, List.append_nil]
    refine ⟨h.past, fun w hw => ?_, ?_, fun hh => absurd hh hnext, fun hlate => ?_, ?_, h.pending,
      ?_, h.spaced⟩
    · obtain rfl := Option.some.inj hw
      refine ⟨rfl, le_refl _, fun t ht => ?_⟩
      have hpast := h.past t ht
      simp only [s']
      omega
    · simpa [startPingTimer, s'] using h.timeout
    · simpa [startPingTimer, s'] using h.late (hmem _ hlate)
    · simpa [startPingTimer, s'] using hwatched
    · simp [chain, startPingTimer, s', hcount, hzero, hfailed]

theorem Beating.pingWritten (h : Beating out s) (ec : Bool) (hpos : s.pinging ≠ 0) :
    Beating out { s with executor := s.executor.post (.onPong ec), pinging := s.pinging - 1 } := by
  have hone := h.one
  have hping : s.executor.waits .ping = none := by
    cases hwait : s.executor.waits .ping with
    | none => rfl
    | some w =>
      simp only [chain, hwait, Option.toList_some, List.length_singleton] at hone
      omega
  have hnext : .onPingTimer ∉ s.executor.ready := by
    refine not_mem_of_countP ?_
    simp only [chain] at hone
    omega
  refine ⟨h.past, h.ping, h.timeout, ?_, ?_, ?_, h.pending, ?_, h.spaced⟩
  · simp [hnext]
  · simpa using h.late
  · simpa using h.watched
  · simp only [chain, Executor.post_waits, Executor.post_ready, List.countP_append,
      List.countP_singleton, PingHandler.inChain, if_true] at hone ⊢
    omega

theorem Beating.onPongFrame (h : Beating out s) :
    Beating (out ++ s.onPongFrame.2) s.onPongFrame.1 := by
  have hpulse : pulse (out ++ [.ponged s.executor.now]) = .answered := pulse_concat out _
  have hpings : ∀ t, .pinged t ∈ out ++ [.ponged s.executor.now] → .pinged t ∈ out := by simp
  simp only [Heartbeat.onPongFrame]
  refine ⟨fun t ht => h.past t (hpings t ht), fun w hw => ?_, ?_, fun hnext => ?_, fun _ => ?_, ?_,
    ?_, ?_, ?_⟩
  · obtain ⟨hhandler, hdeadline, hle⟩ := h.ping w (by simpa using hw)
    exact ⟨hhandler, hdeadline, fun t ht => hle t (hpings t ht)⟩
  · simp
  · obtain ⟨-, hlast, hle⟩ := h.next hnext
    exact ⟨by simp, hlast, fun t ht => hle t (hpings t ht)⟩
  · rw [hpulse]
    simp [Pulse.since]
  · rw [hpulse]
    simp
  · rw [hpulse]
    rfl
  · simpa [chain, failures] using h.one
  · simpa [pings] using h.spaced

theorem Beating.step (h : Beating out s) (e : HeartbeatEvent) :
    Beating (out ++ (s.step e).2) (s.step e).1 := by
  cases e with
  | passes ms =>
    simp only [Heartbeat.step, List.append_nil]
    exact h.passes ms
  | expires timer =>
    simp only [Heartbeat.step, List.append_nil]
    exact h.expires timer
  | runs =>
    cases hready : s.executor.ready with
    | nil =>
      simp only [Heartbeat.step, hready, List.append_nil]
      exact h
    | cons handler rest =>
      simp only [Heartbeat.step, hready]
      cases handler with
      | onPingTimer => exact h.onPingTimer hready
      | onPongTimeout => exact h.onPongTimeout hready
      | onPong ec => exact h.onPong hready
  | pingWritten ec =>
    simp only [Heartbeat.step]
    split_ifs with hzero
    · rw [List.append_nil]
      exact h
    · rw [List.append_nil]
      exact h.pingWritten ec hzero
  | pongFrame => exact h.onPongFrame

/-! ### Runs -/

theorem run_beating (es : List HeartbeatEvent) : Beating (machine.trace es) (machine.run es) := by
  refine machine.invariant_of_ok (fun _ => True) (fun _ _ _ => trivial)
    (fun es s => Beating (machine.trace es) s) Beating.new (fun es e _ h => ?_) es trivial
  rw [Machine.trace_concat]
  exact h.step e

theorem emits_timedOut {e : HeartbeatEvent} {time : ℕ}
    (h : .timedOut time ∈ machine.emits s e) : time = s.executor.now ∧
      s.pongPending = true ∧ .onPongTimeout ∈ s.executor.ready := by
  cases e with
  | passes ms => cases h
  | expires timer => cases h
  | runs =>
    have hstep : .timedOut time ∈ (s.step .runs).2 := h
    rw [Heartbeat.step] at hstep
    split at hstep
    · cases hstep
    · rename_i handler rest hready
      rw [hready]
      cases handler with
      | onPingTimer => simp [handle, Heartbeat.onPingTimer] at hstep
      | onPong ec => cases ec <;> simp [handle, Heartbeat.onPong] at hstep
      | onPongTimeout =>
        cases hp : s.pongPending with
        | false => simp [handle, Heartbeat.onPongTimeout, hp] at hstep
        | true =>
          have htime : time = s.executor.now := by
            simpa [handle, Heartbeat.onPongTimeout, hp] using hstep
          exact ⟨htime, rfl, by simp⟩
  | pingWritten ec =>
    have hstep : .timedOut time ∈ (s.step (.pingWritten ec)).2 := h
    rw [Heartbeat.step] at hstep
    split_ifs at hstep <;> cases hstep
  | pongFrame =>
    have hstep : .timedOut time ∈ s.onPongFrame.2 := h
    simp [Heartbeat.onPongFrame] at hstep

/-- A client is given up only when its last ping has had no pong for the whole
timeout; and when nothing is left to run, one that has had none for so long has
been given up. -/
theorem gives_up_exactly (es : List HeartbeatEvent) :
    (∀ pre e time, pre ++ [e] <+: es →
      .timedOut time ∈ machine.emits (machine.run pre) e → time = (machine.run pre).executor.now ∧
        ∃ t, (pulse (machine.trace pre)).since = some t ∧ t + pongTimeoutMs ≤ time) ∧
    ((machine.run es).executor.Settled → ∀ t, pulse (machine.trace es) = .asked t →
      (machine.run es).executor.now < t + pongTimeoutMs) := by
  constructor
  · intro pre e time _ hemits
    have h := run_beating pre
    obtain ⟨rfl, hpending, hready⟩ := emits_timedOut hemits
    rw [h.pending] at hpending
    obtain ⟨t, ht⟩ := Option.isSome_iff_exists.mp hpending
    exact ⟨rfl, t, ht, (h.late hready).2 t ht⟩
  · intro hsettled t hasked
    have h := run_beating es
    rcases h.watched t hasked with hwait | hready
    · obtain ⟨w, hw⟩ := Option.ne_none_iff_exists'.mp hwait
      obtain ⟨-, u, hu, hdeadline⟩ := h.timeout w hw
      rw [hasked] at hu
      obtain rfl := Pulse.asked.inj hu
      exact hdeadline ▸ hsettled.waits .pongTimeout w hw
    · rw [hsettled.ready] at hready
      cases hready

/-- Pings are an interval apart, one at a time, and never stop unless one cannot
be written: then none is sent any more. -/
theorem keeps_pinging (es : List HeartbeatEvent) :
    let s := machine.run es
    let out := machine.trace es
    ((pings out).Pairwise fun t u => t + pingIntervalMs ≤ u) ∧ s.pinging ≤ 1 ∧
      (failures out = 0 → s.executor.Settled → s.pinging = 0 → ∃ w,
        s.executor.waits .ping = some w ∧ w.handler = .onPingTimer ∧
          s.executor.now < w.deadline ∧ w.deadline ≤ s.executor.now + pingIntervalMs) ∧
      (failures out ≠ 0 → s.executor.waits .ping = none ∧ s.pinging = 0 ∧
        ∀ handler ∈ s.executor.ready, handler = .onPongTimeout) := by
  intro s out
  have h : Beating out s := run_beating es
  have hone := h.one
  simp only [chain] at hone
  refine ⟨h.spaced, by omega, fun hfailed hsettled hzero => ?_, fun hfailed => ?_⟩
  · rw [hfailed, hzero, hsettled.ready] at hone
    cases hwait : s.executor.waits .ping with
    | none => simp [hwait] at hone
    | some w =>
      obtain ⟨hhandler, hdeadline, -⟩ := h.ping w hwait
      exact ⟨w, rfl, hhandler, hsettled.waits .ping w hwait, hdeadline⟩
  · refine ⟨?_, by omega, fun handler hmem => ?_⟩
    · cases hwait : s.executor.waits .ping with
      | none => rfl
      | some w =>
        simp only [hwait, Option.toList_some, List.length_singleton] at hone
        omega
    · have hcount : s.executor.ready.countP PingHandler.inChain = 0 := by omega
      have hno := List.countP_eq_zero.mp hcount handler hmem
      cases handler with
      | onPongTimeout => rfl
      | _ => exact absurd rfl hno

end Heartbeat
end HeadsUp.Server
