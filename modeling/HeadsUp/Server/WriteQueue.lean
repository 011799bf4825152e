import HeadsUp.Server.WebSocketSession

/-!
# Outgoing messages in order (`server/websocket_session.cpp`)

The handlers of `send`, `do_write` and `on_write` with every lock granted at
once, so that `on_write` may call `do_write`. Until a handler of the session
locks the mutex it holds, this is what the session does (`run_forget`). The texts are
values, as they are there: how long the buffer of a write lives is set aside.
-/

namespace HeadsUp.Server
open HeadsUp.Lib

structure WriteQueue where
  writeQueue : List String
  isWriting : Bool
  posted : List String
  inFlight : List String
  deriving DecidableEq, Repr

/-- A posted handler has run, or a write has completed with or without success. -/
inductive WriteOutput where
  | handled (message : String)
  | written (message : String)
  | failed (message : String)
  deriving DecidableEq, Repr

def handled (out : List WriteOutput) : List String :=
  out.filterMap fun
    | .handled message => some message
    | _ => none

def written (out : List WriteOutput) : List String :=
  out.filterMap fun
    | .written message => some message
    | _ => none

def failed (out : List WriteOutput) : List String :=
  out.filterMap fun
    | .failed message => some message
    | _ => none

/-- The messages `send` posts a handler for. -/
def sentTexts (es : List SocketEvent) : List String :=
  es.filterMap fun
    | .send message => if message = "" then none else some message
    | _ => none

namespace WriteQueue

def new : WriteQueue where
  writeQueue := []
  isWriting := false
  posted := []
  inFlight := []

def send (s : WriteQueue) (message : String) : WriteQueue :=
  if message = "" then s else { s with posted := s.posted ++ [message] }

def doWrite (s : WriteQueue) : WriteQueue :=
  { s with isWriting := true, inFlight := s.inFlight ++ [s.writeQueue.headD ""] }

def onPosted (s : WriteQueue) (message : String) : WriteQueue :=
  let s := { s with writeQueue := s.writeQueue ++ [message] }
  if !s.isWriting then s.doWrite else s

def onWrite (s : WriteQueue) (ec : Bool) : WriteQueue :=
  -- after an error the message stays at the front of the queue
  if ec then { s with isWriting := false }
  else
    let s := { s with writeQueue := s.writeQueue.tail }
    if s.writeQueue ≠ [] then s.doWrite else { s with isWriting := false }

def step (s : WriteQueue) : SocketEvent → WriteQueue × List WriteOutput
  | .send message => (s.send message, [])
  | .postedRuns =>
    match s.posted with
    | [] => (s, [])
    | message :: rest => ({ s with posted := rest }.onPosted message, [.handled message])
  | .writeCompletes ec =>
    match s.inFlight with
    | [] => (s, [])
    | message :: rest =>
      ({ s with inFlight := rest }.onWrite ec, [if ec then .failed message else .written message])

def machine : Machine WriteQueue SocketEvent WriteOutput := ⟨new, step⟩

/-! ### The invariant -/

/-- The write in flight is that of the head of the queue, and the queue is what
has been handled and not written yet. -/
structure Ordered (es : List SocketEvent) (out : List WriteOutput) (s : WriteQueue) : Prop where
  inFlight : s.inFlight = if s.isWriting then s.writeQueue.head?.toList else []
  queued : s.isWriting = true → s.writeQueue ≠ []
  posted : handled out ++ s.posted = sentTexts es
  order : written out ++ s.writeQueue = handled out
  idle : failed out = [] → s.isWriting = false → s.writeQueue = []

theorem Ordered.new : Ordered [] [] new where
  inFlight := rfl
  queued := fun h => by cases h
  posted := rfl
  order := rfl
  idle := fun _ _ => rfl

variable {s : WriteQueue} {es : List SocketEvent} {out : List WriteOutput}

theorem Ordered.send (h : Ordered es out s) (message : String) :
    Ordered (es ++ [.send message]) out (s.send message) := by
  have hsent : sentTexts (es ++ [.send message])
      = sentTexts es ++ if message = "" then [] else [message] := by
    rw [sentTexts, List.filterMap_append]
    split_ifs with hempty <;> simp [sentTexts, hempty]
  unfold WriteQueue.send
  split_ifs at hsent ⊢ with hempty
  · refine ⟨h.inFlight, h.queued, ?_, h.order, h.idle⟩
    rw [hsent, List.append_nil, h.posted]
  · refine ⟨h.inFlight, h.queued, ?_, h.order, h.idle⟩
    rw [hsent, ← h.posted, List.append_assoc]

theorem sentTexts_concat {e : SocketEvent} (he : ∀ message, e ≠ .send message) :
    sentTexts (es ++ [e]) = sentTexts es := by
  cases e with
  | send message => exact absurd rfl (he message)
  | postedRuns => simp [sentTexts]
  | writeCompletes ec => simp [sentTexts]

theorem Ordered.unsent (h : Ordered es out s) {e : SocketEvent}
    (he : ∀ message, e ≠ .send message) : Ordered (es ++ [e]) out s :=
  ⟨h.inFlight, h.queued, by rw [sentTexts_concat he, h.posted], h.order, h.idle⟩

theorem Ordered.onPosted (h : Ordered es out s) {message : String} {rest : List String}
    (hposted : s.posted = message :: rest) :
    Ordered (es ++ [.postedRuns]) (out ++ [.handled message])
      ({ s with posted := rest }.onPosted message) := by
  have hhandled : handled (out ++ [.handled message]) = handled out ++ [message] := by
    simp [handled]
  have hwritten : written (out ++ [.handled message]) = written out := by simp [written]
  have hsent := h.posted
  rw [hposted] at hsent
  have hposts : handled (out ++ [.handled message]) ++ rest = sentTexts (es ++ [.postedRuns]) := by
    rw [hhandled, sentTexts_concat (by simp), ← hsent, List.append_assoc, List.singleton_append]
  have horder : written (out ++ [.handled message]) ++ (s.writeQueue ++ [message])
      = handled (out ++ [.handled message]) := by
    rw [hwritten, hhandled, ← h.order, List.append_assoc]
  have hflight := h.inFlight
  unfold WriteQueue.onPosted
  cases hw : s.isWriting with
  | false =>
    -- nothing is in flight: the head of the longer queue is written
    rw [hw, if_neg Bool.false_ne_true] at hflight
    refine ⟨?_, fun _ => by simp [doWrite], by simpa [doWrite] using hposts,
      by simpa [doWrite] using horder, fun _ hidle => by simp [doWrite] at hidle⟩
    simp [doWrite, hflight, List.headD_eq_head?_getD]
  | true =>
    -- the queue is not empty, so its head stays the message in flight
    have hne := h.queued hw
    refine ⟨?_, fun _ => by simp, by simpa using hposts, by simpa using horder,
      fun _ hidle => by simp at hidle⟩
    obtain ⟨first, others, hq⟩ := List.exists_cons_of_ne_nil hne
    simpa [hw, hq] using hflight

/-- The message in flight is the head of the queue, and the only one. -/
theorem Ordered.front (h : Ordered es out s) {message : String} {rest : List String}
    (hflight : s.inFlight = message :: rest) :
    rest = [] ∧ ∃ others, s.writeQueue = message :: others := by
  have hwriting : s.isWriting = true := by
    by_contra hno
    have hnone := h.inFlight
    rw [if_neg hno, hflight] at hnone
    cases hnone
  obtain ⟨first, others, hq⟩ := List.exists_cons_of_ne_nil (h.queued hwriting)
  obtain ⟨rfl, rfl⟩ : message = first ∧ rest = [] := by
    have hhead := h.inFlight
    simpa [hwriting, hq, hflight] using hhead
  exact ⟨rfl, others, hq⟩

/-- A write that fails leaves the queue as it is, for good. -/
theorem Ordered.onFailure (h : Ordered es out s) {message : String} :
    Ordered (es ++ [.writeCompletes true]) (out ++ [.failed message])
      ({ s with inFlight := [] }.onWrite true) := by
  have hhandled : handled (out ++ [.failed message]) = handled out := by simp [handled]
  have hwritten : written (out ++ [.failed message]) = written out := by simp [written]
  have hposts : handled (out ++ [.failed message]) ++ s.posted
      = sentTexts (es ++ [.writeCompletes true]) := by
    rw [hhandled, sentTexts_concat (by simp), h.posted]
  have hkept : written (out ++ [.failed message]) ++ s.writeQueue
      = handled (out ++ [.failed message]) := by
    rw [hwritten, hhandled, h.order]
  exact ⟨rfl, fun hno => (by cases hno), hposts, hkept,
    fun hnone => by simp [failed] at hnone⟩

theorem Ordered.onSuccess (h : Ordered es out s) {message : String} {others : List String}
    (hq : s.writeQueue = message :: others) :
    Ordered (es ++ [.writeCompletes false]) (out ++ [.written message])
      ({ s with inFlight := [] }.onWrite false) := by
  have hhandled : handled (out ++ [.written message]) = handled out := by simp [handled]
  have hwritten : written (out ++ [.written message])
      = written out ++ [message] := by simp [written]
  have hposts : handled (out ++ [.written message]) ++ s.posted
      = sentTexts (es ++ [.writeCompletes false]) := by
    rw [hhandled, sentTexts_concat (by simp), h.posted]
  have hrest : written (out ++ [.written message]) ++ others
      = handled (out ++ [.written message]) := by
    rw [hwritten, hhandled, ← h.order, hq, List.append_assoc, List.singleton_append]
  cases others with
  | nil =>
    have hidle : ({ s with inFlight := [] }.onWrite false) = ⟨[], false, s.posted, []⟩ := by
      simp [WriteQueue.onWrite, hq]
    rw [hidle]
    exact ⟨rfl, fun hno => (by cases hno), hposts, hrest, fun _ _ => rfl⟩
  | cons second later =>
    have hnext : ({ s with inFlight := [] }.onWrite false)
        = ⟨second :: later, true, s.posted, [second]⟩ := by
      simp [WriteQueue.onWrite, doWrite, hq]
    rw [hnext]
    exact ⟨rfl, fun _ => List.cons_ne_nil _ _, hposts, hrest, fun _ hno => by cases hno⟩

theorem Ordered.step (h : Ordered es out s) (e : SocketEvent) :
    Ordered (es ++ [e]) (out ++ (s.step e).2) (s.step e).1 := by
  cases e with
  | send message =>
    simp only [WriteQueue.step, List.append_nil]
    exact h.send message
  | postedRuns =>
    cases hposted : s.posted with
    | nil =>
      simp only [WriteQueue.step, hposted, List.append_nil]
      exact h.unsent (by simp)
    | cons message rest =>
      simp only [WriteQueue.step, hposted]
      exact h.onPosted hposted
  | writeCompletes ec =>
    cases hflight : s.inFlight with
    | nil =>
      simp only [WriteQueue.step, hflight, List.append_nil]
      exact h.unsent (by simp)
    | cons message rest =>
      obtain ⟨rfl, others, hq⟩ := h.front hflight
      simp only [WriteQueue.step, hflight]
      cases ec with
      | true => exact h.onFailure
      | false => exact h.onSuccess hq

theorem run_ordered (es : List SocketEvent) : Ordered es (machine.trace es) (machine.run es) := by
  refine machine.invariant_of_ok (fun _ => True) (fun _ _ _ => trivial)
    (fun es s => Ordered es (machine.trace es) s) Ordered.new (fun es e _ h => ?_) es trivial
  rw [Machine.trace_concat]
  exact h.step e

/-- Whatever order messages are sent in, handlers run in and writes complete in,
one write is outstanding while `is_writing_` is set and none else, the messages
written and those queued are the ones handled in their order, and while no write
has failed an idle session has nothing queued. -/
theorem written_in_order (es : List SocketEvent) :
    let s := machine.run es
    let out := machine.trace es
    s.inFlight.length ≤ 1 ∧ (s.isWriting = true ↔ s.inFlight.length = 1) ∧
      written out ++ s.writeQueue = handled out ∧ handled out ++ s.posted = sentTexts es ∧
      (failed out = [] → s.isWriting = false → s.writeQueue = []) := by
  intro s out
  have h : Ordered es out s := run_ordered es
  have hlen : s.inFlight.length = if s.isWriting then 1 else 0 := by
    rw [h.inFlight]
    split_ifs with hw
    · obtain ⟨first, others, hq⟩ := List.exists_cons_of_ne_nil (h.queued hw)
      rw [hq]
      rfl
    · rfl
  refine ⟨?_, ?_, h.order, h.posted, h.idle⟩
  · rw [hlen]
    split_ifs <;> omega
  · rw [hlen]
    split_ifs with hw <;> simp [hw]

end WriteQueue

/-! ### The session until it locks twice -/

namespace WebSocketSession

def forget (s : WebSocketSession) : WriteQueue :=
  ⟨s.writeQueue, s.isWriting, s.posted, s.inFlight⟩

variable {s : WebSocketSession}

theorem forget_onPosted (h : s.writeQueueMutex = .free) (message : String) :
    (left (s.onPosted message)).1.writeQueueMutex = .free ∧
      (left (s.onPosted message)).1.forget = s.forget.onPosted message := by
  rw [onPosted_free h]
  refine ⟨h, ?_⟩
  cases hw : s.isWriting <;>
    simp [left, forget, WriteQueue.onPosted, WriteQueue.doWrite, hw]

theorem forget_onWrite (h : s.writeQueueMutex = .free) (ec : Bool)
    (hclean : (left (s.onWrite ec)).2 = []) :
    (left (s.onWrite ec)).1.writeQueueMutex = .free ∧
      (left (s.onWrite ec)).1.forget = s.forget.onWrite ec := by
  cases ec with
  | true => exact ⟨h, rfl⟩
  | false =>
    by_cases hfew : s.writeQueue.length ≤ 1
    · have hrest : s.writeQueue.tail = [] := List.eq_nil_of_length_eq_zero (by
        rw [List.length_tail]
        omega)
      rw [onWrite_few h hfew]
      exact ⟨h, by simp [left, forget, WriteQueue.onWrite, hrest]⟩
    · rw [onWrite_many h (by omega)] at hclean
      cases hclean

theorem forget_step (h : s.writeQueueMutex = .free) (e : SocketEvent) (hclean : (s.step e).2 = []) :
    (s.step e).1.writeQueueMutex = .free ∧ (s.step e).1.forget = (s.forget.step e).1 := by
  cases e with
  | send message =>
    simp only [step, WriteQueue.step, send, WriteQueue.send]
    split_ifs
    · exact ⟨h, rfl⟩
    · exact ⟨h, rfl⟩
  | postedRuns =>
    cases hp : s.posted with
    | nil => simp [step, WriteQueue.step, forget, h, hp]
    | cons message rest =>
      rw [step_postedRuns h hp]
      have hforget : s.forget.posted = message :: rest := hp
      simp only [WriteQueue.step, hforget]
      exact forget_onPosted (s := { s with posted := rest }) h message
  | writeCompletes ec =>
    cases hf : s.inFlight with
    | nil => simp [step, WriteQueue.step, forget, h, hf]
    | cons message rest =>
      rw [step_writeCompletes h hf] at hclean ⊢
      have hforget : s.forget.inFlight = message :: rest := hf
      simp only [WriteQueue.step, hforget]
      exact forget_onWrite (s := { s with inFlight := rest }) h ec hclean

theorem run_forget {es : List SocketEvent} (hclean : machine.trace es = []) :
    (machine.run es).writeQueueMutex = .free ∧
      (machine.run es).forget = WriteQueue.machine.run es := by
  induction es using List.reverseRecOn with
  | nil => exact ⟨rfl, rfl⟩
  | append_singleton es e ih =>
    rw [Machine.trace_concat, List.append_eq_nil_iff] at hclean
    obtain ⟨hfree, hsame⟩ := ih hclean.1
    obtain ⟨hfree', hsame'⟩ := forget_step hfree e hclean.2
    rw [Machine.run_concat, Machine.run_concat, ← hsame]
    exact ⟨hfree', hsame'⟩

end WebSocketSession
end HeadsUp.Server
