import Mathlib.Data.List.AList
import Mathlib.Algebra.Ring.Int.Defs

/-!
# Disconnection timers (`server/connection_manager.cpp`)

Two timers a player, each with at most one wait. A wait expires at some time
and its handler then runs at some later time; cancelling a timer drops its wait
but not a handler that is already queued. Durations are kept with the wait,
when it expires is up to the environment.
-/

namespace HeadsUp.Server

inductive TimerCallback where
  | graceTimerExpired (playerId : String)
  | playerRemoved (playerId : String)
  deriving DecidableEq, Repr

structure Wait where
  timer : ℕ
  callback : TimerCallback
  afterMs : ℤ
  deriving DecidableEq, Repr

structure PlayerTimers where
  graceTimer : Option ℕ
  removalTimer : Option ℕ
  deriving DecidableEq, Repr

structure ConnectionManager where
  timers : AList fun _ : String => PlayerTimers
  nextTimer : ℕ
  pending : List Wait
  ready : List TimerCallback

namespace ConnectionManager

def new : ConnectionManager := ⟨∅, 0, [], []⟩

/-- `steady_timer::cancel`. -/
def cancel (cm : ConnectionManager) (timer : ℕ) : ConnectionManager :=
  { cm with pending := cm.pending.filter fun w => w.timer ≠ timer }

def timersOf (cm : ConnectionManager) (playerId : String) : PlayerTimers :=
  (cm.timers.lookup playerId).getD ⟨none, none⟩

/-- `expires_after`, which cancels a wait still pending, and `async_wait`. -/
def wait (cm : ConnectionManager) (timer : ℕ) (afterMs : ℤ) (onExpiry : TimerCallback) :
    ConnectionManager :=
  let cm := cm.cancel timer
  { cm with pending := cm.pending ++ [⟨timer, onExpiry, afterMs⟩] }

def startGraceTimer (cm : ConnectionManager) (playerId : String) (graceTimeMs : ℤ)
    (onExpiry : TimerCallback) : ConnectionManager :=
  let timers := cm.timersOf playerId
  match timers.graceTimer with
  | none =>
    let timer := cm.nextTimer
    { cm with
      timers := cm.timers.insert playerId { timers with graceTimer := some timer }
      nextTimer := timer + 1 }.wait timer graceTimeMs onExpiry
  | some timer => (cm.cancel timer).wait timer graceTimeMs onExpiry

def startRemovalTimer (cm : ConnectionManager) (playerId : String) (removalTimeMs : ℤ)
    (onExpiry : TimerCallback) : ConnectionManager :=
  let timers := cm.timersOf playerId
  match timers.removalTimer with
  | none =>
    let timer := cm.nextTimer
    { cm with
      timers := cm.timers.insert playerId { timers with removalTimer := some timer }
      nextTimer := timer + 1 }.wait timer removalTimeMs onExpiry
  | some timer => (cm.cancel timer).wait timer removalTimeMs onExpiry

def cancelTimers (cm : ConnectionManager) (playerId : String) : ConnectionManager :=
  match cm.timers.lookup playerId with
  | none => cm
  | some timers =>
    let cm := (timers.graceTimer.toList ++ timers.removalTimer.toList).foldl cancel cm
    { cm with timers := cm.timers.erase playerId }

def hasActiveTimers (cm : ConnectionManager) (playerId : String) : Bool :=
  match cm.timers.lookup playerId with
  | none => false
  | some timers => timers.graceTimer.isSome || timers.removalTimer.isSome

/-- The `i`-th pending wait expires: its handler is queued. -/
def expire (cm : ConnectionManager) (i : ℕ) : ConnectionManager :=
  match cm.pending[i]? with
  | none => cm
  | some w => { cm with pending := cm.pending.eraseIdx i, ready := cm.ready ++ [w.callback] }

/-- The `i`-th queued handler is taken to run. -/
def take (cm : ConnectionManager) (i : ℕ) : Option TimerCallback × ConnectionManager :=
  (cm.ready[i]?, { cm with ready := cm.ready.eraseIdx i })

end ConnectionManager
end HeadsUp.Server
