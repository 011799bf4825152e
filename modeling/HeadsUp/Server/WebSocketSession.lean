import HeadsUp.Lib.Machine
import Mathlib.Data.List.Basic

/-!
# The write queue of a session (`server/websocket_session.cpp`)

One thread runs the handlers of a session one after the other, posted ones in
the order they were posted. `write_queue_mutex_` is not recursive: a handler that
locks it while it holds it never returns, and no other handler runs after it.
`async_write` is given the text of its message. That `do_write` passes a buffer over
a local string, which is gone before the write is done, is a matter of memory and
not modelled.
-/

namespace HeadsUp.Server
open HeadsUp.Lib

inductive Mutex where
  | free | held
  deriving DecidableEq, Repr

structure WebSocketSession where
  writeQueue : List String
  writeQueueMutex : Mutex
  isWriting : Bool
  /-- Messages of the handlers `send` has posted. -/
  posted : List String
  /-- Messages handed to `async_write`. -/
  inFlight : List String
  deriving DecidableEq, Repr

/-- A handler returns, or it is stuck where it locks a mutex it holds. -/
abbrev Handler := Except WebSocketSession WebSocketSession

namespace WebSocketSession

def new : WebSocketSession where
  writeQueue := []
  writeQueueMutex := .free
  isWriting := false
  posted := []
  inFlight := []

def lock (s : WebSocketSession) : Handler :=
  match s.writeQueueMutex with
  | .free => .ok { s with writeQueueMutex := .held }
  | .held => .error s

def unlock (s : WebSocketSession) : WebSocketSession := { s with writeQueueMutex := .free }

def send (s : WebSocketSession) (message : String) : WebSocketSession :=
  if message = "" then s else { s with posted := s.posted ++ [message] }

def doWrite (s : WebSocketSession) : Handler := do
  let s := { s with isWriting := true }
  let s ← s.lock
  let message := s.writeQueue.headD ""
  let s := s.unlock
  pure { s with inFlight := s.inFlight ++ [message] }

def onPosted (s : WebSocketSession) (message : String) : Handler := do
  let s ← s.lock
  let s := { s with writeQueue := s.writeQueue ++ [message] }
  let s := s.unlock
  if !s.isWriting then s.doWrite else pure s

/-- `ec` tells whether the write failed; the lock is held to the end of its
block, the call of `do_write` included. -/
def onWrite (s : WebSocketSession) (ec : Bool) : Handler :=
  if ec then pure { s with isWriting := false }
  else do
    let s ← s.lock
    let s := { s with writeQueue := s.writeQueue.tail }
    if s.writeQueue ≠ [] then do
      -- the guard of this block is still in scope
      let s ← s.doWrite
      pure s.unlock
    else
      let s := s.unlock
      pure { s with isWriting := false }

end WebSocketSession

/-! ### The machine -/

inductive SocketEvent where
  | send (message : String)
  | postedRuns
  | writeCompletes (ec : Bool)
  deriving DecidableEq, Repr

inductive LockFault where
  | relock
  deriving DecidableEq, Repr

namespace WebSocketSession

def left : Handler → WebSocketSession × List LockFault
  | .ok s => (s, [])
  | .error s => (s, [.relock])

/-- A mutex held between handlers is held by one that is stuck. -/
def step (s : WebSocketSession) : SocketEvent → WebSocketSession × List LockFault
  | .send message => (s.send message, [])
  | .postedRuns =>
    match s.writeQueueMutex, s.posted with
    | .free, message :: rest => left ({ s with posted := rest }.onPosted message)
    | _, _ => (s, [])
  | .writeCompletes ec =>
    match s.writeQueueMutex, s.inFlight with
    | .free, _ :: rest => left ({ s with inFlight := rest }.onWrite ec)
    | _, _ => (s, [])

def machine : Machine WebSocketSession SocketEvent LockFault := ⟨new, step⟩

/-! ### Handlers, step by step -/

variable {s : WebSocketSession}

theorem doWrite_free (h : s.writeQueueMutex = .free) :
    s.doWrite = .ok { s with
      isWriting := true
      inFlight := s.inFlight ++ [s.writeQueue.headD ""] } := by
  simp only [doWrite, lock, h, bind, Except.bind, pure, Except.pure, unlock]

theorem onPosted_free (h : s.writeQueueMutex = .free) (message : String) :
    s.onPosted message = .ok { s with
      writeQueue := s.writeQueue ++ [message]
      isWriting := true
      inFlight := if s.isWriting then s.inFlight
        else s.inFlight ++ [(s.writeQueue ++ [message]).headD ""] } := by
  cases hw : s.isWriting with
  | false =>
    simp only [onPosted, lock, h, bind, Except.bind, unlock, hw, Bool.not_false, if_true]
    rw [doWrite_free rfl]
    simp only [Bool.false_eq_true, if_false]
  | true =>
    simp only [onPosted, lock, h, bind, Except.bind, unlock, hw, Bool.not_true, pure, Except.pure,
      Bool.false_eq_true, if_false, if_true]

/-- With another message queued `on_write` calls `do_write` under its lock. -/
theorem onWrite_many (h : s.writeQueueMutex = .free) (hmany : 2 ≤ s.writeQueue.length) :
    s.onWrite false = .error { s with
      writeQueue := s.writeQueue.tail
      isWriting := true
      writeQueueMutex := .held } := by
  have hrest : s.writeQueue.tail ≠ [] := by
    intro hnil
    have hlen := congrArg List.length hnil
    simp only [List.length_tail, List.length_nil] at hlen
    omega
  simp only [onWrite, Bool.false_eq_true, if_false, lock, h, bind, Except.bind, hrest, ne_eq,
    not_false_eq_true, if_true, doWrite]

theorem onWrite_few (h : s.writeQueueMutex = .free) (hfew : s.writeQueue.length ≤ 1) :
    s.onWrite false = .ok { s with writeQueue := [], isWriting := false } := by
  have hrest : s.writeQueue.tail = [] := List.eq_nil_of_length_eq_zero (by
    rw [List.length_tail]
    omega)
  simp only [onWrite, Bool.false_eq_true, if_false, lock, h, bind, Except.bind, hrest, ne_eq,
    not_true_eq_false, unlock, pure, Except.pure]

/-! ### The invariant -/

/-- While no handler is stuck, a write is in flight when `is_writing_` says so,
and it is that of the head of the queue. -/
structure WriteInv (s : WebSocketSession) : Prop where
  inFlight : s.inFlight = if s.isWriting then s.writeQueue.head?.toList else []
  queued : s.isWriting = true → s.writeQueue ≠ []

theorem WriteInv.single (h : WriteInv s) {message : String} {rest : List String}
    (hflight : s.inFlight = message :: rest) : rest = [] := by
  have hlen := congrArg List.length (hflight.symm.trans h.inFlight)
  cases hw : s.isWriting with
  | false => simp [hw] at hlen
  | true =>
    cases hq : s.writeQueue with
    | nil => simp [hw, hq] at hlen
    | cons first others => simpa [hw, hq] using hlen

theorem WriteInv.onPosted (h : WriteInv s) (hfree : s.writeQueueMutex = .free) (message : String) :
    ∃ s', s.onPosted message = .ok s' ∧ WriteInv s' := by
  refine ⟨_, onPosted_free hfree message, ?_, fun _ => by simp⟩
  have hflight := h.inFlight
  cases hw : s.isWriting with
  | false =>
    -- nothing is in flight: the head of the longer queue is written
    rw [hw, if_neg Bool.false_ne_true] at hflight
    simp [hflight, List.head?_eq_getElem?, List.headD_eq_head?_getD]
  | true =>
    -- the queue is not empty, so its head stays the message in flight
    cases hq : s.writeQueue with
    | nil => exact absurd hq (h.queued hw)
    | cons first others => simpa [hw, hq] using hflight

theorem WriteInv.onWrite (hfree : s.writeQueueMutex = .free) (hflight : s.inFlight = [])
    (ec : Bool) : (left (s.onWrite ec)).1.writeQueueMutex = .free →
      WriteInv (left (s.onWrite ec)).1 := by
  cases ec with
  | true => exact fun _ => ⟨hflight, fun hno => by cases hno⟩
  | false =>
    by_cases hfew : s.writeQueue.length ≤ 1
    · rw [onWrite_few hfree hfew]
      exact fun _ => ⟨hflight, fun hno => by cases hno⟩
    · rw [onWrite_many hfree (by omega)]
      exact fun hno => by cases hno

theorem step_postedRuns (hfree : s.writeQueueMutex = .free) {message : String} {rest : List String}
    (hposted : s.posted = message :: rest) :
    s.step .postedRuns = left ({ s with posted := rest }.onPosted message) := by
  simp only [step, hfree, hposted]

theorem step_writeCompletes (hfree : s.writeQueueMutex = .free) {message : String}
    {rest : List String} (hflight : s.inFlight = message :: rest) (ec : Bool) :
    s.step (.writeCompletes ec) = left ({ s with inFlight := rest }.onWrite ec) := by
  simp only [step, hfree, hflight]

theorem step_inv (h : s.writeQueueMutex = .free → WriteInv s) (e : SocketEvent) :
    (s.step e).1.writeQueueMutex = .free → WriteInv (s.step e).1 := by
  cases hm : s.writeQueueMutex with
  | held =>
    -- no handler runs any more
    have hstuck : (s.step e).1.writeQueueMutex = .held := by
      cases e with
      | send message =>
        simp only [step, send]
        split_ifs
        · exact hm
        · exact hm
      | _ => simp only [step, hm]
    rw [hstuck]
    intro hno
    cases hno
  | free =>
    have hinv := h hm
    cases e with
    | send message =>
      intro _
      simp only [step, send]
      split_ifs
      · exact hinv
      · exact ⟨hinv.inFlight, hinv.queued⟩
    | postedRuns =>
      intro _
      cases hp : s.posted with
      | nil =>
        simp only [step, hm, hp]
        exact hinv
      | cons message rest =>
        have hrest : WriteInv { s with posted := rest } := ⟨hinv.inFlight, hinv.queued⟩
        obtain ⟨s', hs', hinv'⟩ := hrest.onPosted hm message
        rw [step_postedRuns hm hp, hs']
        exact hinv'
    | writeCompletes ec =>
      cases hf : s.inFlight with
      | nil =>
        simp only [step, hm, hf]
        exact fun _ => hinv
      | cons message rest =>
        obtain rfl := hinv.single hf
        rw [step_writeCompletes hm hf]
        exact WriteInv.onWrite (s := { s with inFlight := [] }) hm rfl ec

theorem run_inv (es : List SocketEvent) (h : (machine.run es).writeQueueMutex = .free) :
    WriteInv (machine.run es) :=
  machine.invariant (I := fun s => s.writeQueueMutex = .free → WriteInv s)
    (fun _ => ⟨rfl, fun hno => by cases hno⟩) (fun _ e h => step_inv h e) es h

/-- A successful completion runs `on_write`. -/
def CompletesWrite (s : WebSocketSession) (e : SocketEvent) : Prop :=
  s.writeQueueMutex = .free ∧ s.inFlight ≠ [] ∧ e = .writeCompletes false

/-- One step locks the held mutex when it completes a write with another message
queued. -/
theorem step_relocks_iff (s : WebSocketSession) (e : SocketEvent) :
    (s.step e).2 = [] ↔ (CompletesWrite s e → s.writeQueue.length ≤ 1) := by
  unfold CompletesWrite
  cases hm : s.writeQueueMutex with
  | held => cases e <;> simp [step, hm]
  | free =>
    cases e with
    | send message => simp [step]
    | postedRuns =>
      cases hp : s.posted with
      | nil => simp [step, hp]
      | cons message rest =>
        rw [step_postedRuns hm hp, onPosted_free (s := { s with posted := rest }) hm]
        simp [left]
    | writeCompletes ec =>
      cases hf : s.inFlight with
      | nil => simp [step, hf]
      | cons message rest =>
        rw [step_writeCompletes hm hf]
        cases ec with
        | true => simp [onWrite, left, pure, Except.pure]
        | false =>
          by_cases hfew : s.writeQueue.length ≤ 1
          · rw [onWrite_few (s := { s with inFlight := rest }) hm hfew]
            simp [left, hfew]
          · rw [onWrite_many (s := { s with inFlight := rest }) hm (by simp only; omega)]
            simp [left, hfew]

/-- In a run no handler locks the mutex it holds exactly when every write that
completes finds no message queued behind it. -/
theorem noRelock_iff (es : List SocketEvent) :
    machine.trace es = [] ↔
      machine.EveryStep (fun s e => CompletesWrite s e → s.writeQueue.length ≤ 1) es := by
  rw [machine.trace_eq_nil_iff]
  exact machine.everyStep_congr (fun pre e => step_relocks_iff (machine.run pre) e) es

theorem relock_twoMessages :
    machine.trace [.send "hand_started", .send "action_request", .postedRuns, .postedRuns,
      .writeCompletes false] = [.relock] := by decide

end WebSocketSession
end HeadsUp.Server
