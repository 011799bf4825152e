import HeadsUp.Lib.Machine
import HeadsUp.Server.Timers

/-!
# The timer table (`server/connection_manager.cpp`)

The waits of `ConnectionManager` are a table with at most one callback for each
player and kind of timer. An entry of `timers_` lasts from the first start to the
next `cancelTimers`, so that it also stands for timers that have fired. A wait
that is cancelled never runs its callback here: the handler of an expired wait
runs at once.
-/

namespace HeadsUp.Server
open HeadsUp.Lib

/-- The calls of a `ConnectionManager`, with any callbacks, and the time that
passes until the `i`-th pending wait is over. -/
inductive TimerOp where
  | startGraceTimer (playerId : String) (graceTimeMs : ℤ) (onExpiry : TimerCallback)
  | startRemovalTimer (playerId : String) (removalTimeMs : ℤ) (onExpiry : TimerCallback)
  | cancelTimers (playerId : String)
  | passes (i : ℕ)
  deriving DecidableEq, Repr

/-! ### The table -/

/-- The callback outstanding for each player and kind. -/
abbrev TimerTable := String → TimerKind → Option TimerCallback

inductive TableEvent where
  | start (playerId : String) (kind : TimerKind) (onExpiry : TimerCallback)
  | cancel (playerId : String)
  | fire (playerId : String) (kind : TimerKind)
  deriving DecidableEq, Repr

namespace TimerTable

def set (t : TimerTable) (playerId : String) (kind : TimerKind) (callback : Option TimerCallback) :
    TimerTable :=
  fun p k => if p = playerId ∧ k = kind then callback else t p k

/-- A start replaces what was outstanding, a callback that fires is gone, and
cancelling clears both kinds of one player. -/
def step (t : TimerTable) : TableEvent → TimerTable × List TimerCallback
  | .start playerId kind onExpiry => (t.set playerId kind (some onExpiry), [])
  | .cancel playerId => (fun p k => if p = playerId then none else t p k, [])
  | .fire playerId kind => (t.set playerId kind none, (t playerId kind).toList)

def machine : Machine TimerTable TableEvent TimerCallback := ⟨fun _ _ => none, step⟩

end TimerTable

/-- The events of the table that a call stands for. -/
inductive Stands : TimerOp → List TableEvent → Prop
  | grace (playerId : String) (ms : ℤ) (onExpiry : TimerCallback) :
    Stands (.startGraceTimer playerId ms onExpiry) [.start playerId .grace onExpiry]
  | removal (playerId : String) (ms : ℤ) (onExpiry : TimerCallback) :
    Stands (.startRemovalTimer playerId ms onExpiry) [.start playerId .removal onExpiry]
  | cancel (playerId : String) : Stands (.cancelTimers playerId) [.cancel playerId]
  | fires (i : ℕ) (playerId : String) (kind : TimerKind) : Stands (.passes i) [.fire playerId kind]
  | idle (i : ℕ) : Stands (.passes i) []

namespace ConnectionManager

/-- The wait that is over runs its handler at once. -/
def apply (cm : ConnectionManager) : TimerOp → ConnectionManager × List TimerCallback
  | .startGraceTimer playerId graceTimeMs onExpiry =>
    (cm.startGraceTimer playerId graceTimeMs onExpiry, [])
  | .startRemovalTimer playerId removalTimeMs onExpiry =>
    (cm.startRemovalTimer playerId removalTimeMs onExpiry, [])
  | .cancelTimers playerId => (cm.cancelTimers playerId, [])
  | .passes i =>
    let r := (cm.expire i).take 0
    (r.2, r.1.toList)

def machine : Machine ConnectionManager TimerOp TimerCallback := ⟨new, apply⟩

/-- `w` is a wait still pending on the timer of `playerId` of this kind. -/
def Outstanding (cm : ConnectionManager) (playerId : String) (kind : TimerKind) (w : Wait) : Prop :=
  w ∈ cm.pending ∧ cm.timerOf playerId kind = some w.timer

/-- What is outstanding, as a table. -/
def table (cm : ConnectionManager) : TimerTable := fun playerId kind =>
  (cm.timerOf playerId kind).bind fun timer =>
    (cm.pending.find? fun w => w.timer = timer).map Wait.callback

/-! ### The invariant -/

/-- Every timer belongs to one player and kind, and has one wait at most. -/
structure TimersInv (cm : ConnectionManager) : Prop where
  bound : ∀ p k timer, cm.timerOf p k = some timer → timer < cm.nextTimer
  own : ∀ p k q l timer, cm.timerOf p k = some timer → cm.timerOf q l = some timer → p = q ∧ k = l
  timed : ∀ w ∈ cm.pending, ∃ p k, cm.timerOf p k = some w.timer
  single : (cm.pending.map Wait.timer).Nodup
  ready : cm.ready = []

theorem TimersInv.new : TimersInv new where
  bound := by
    intro p k timer hno
    cases (PlayerTimers.ofKind_none k).symm.trans hno
  own := by
    intro p k q l timer hno
    cases (PlayerTimers.ofKind_none k).symm.trans hno
  timed := by
    intro w hno
    cases hno
  single := List.nodup_nil
  ready := rfl

variable {cm : ConnectionManager}

theorem TimersInv.eq_of_timer (h : TimersInv cm) {w w' : Wait} (hw : w ∈ cm.pending)
    (hw' : w' ∈ cm.pending) (hsame : w.timer = w'.timer) : w = w' :=
  List.inj_on_of_nodup_map h.single hw hw' hsame

theorem TimersInv.table_eq_some (h : TimersInv cm) {playerId : String} {kind : TimerKind}
    {callback : TimerCallback} : cm.table playerId kind = some callback ↔
      ∃ w, cm.Outstanding playerId kind w ∧ w.callback = callback := by
  rw [table, Option.bind_eq_some_iff]
  constructor
  · intro hh
    obtain ⟨timer, htimer, hfind⟩ := hh
    obtain ⟨w, hw, rfl⟩ := Option.map_eq_some_iff.mp hfind
    have hsame : w.timer = timer := by simpa using List.find?_some hw
    exact ⟨w, ⟨List.mem_of_find?_eq_some hw, hsame ▸ htimer⟩, rfl⟩
  · intro hh
    obtain ⟨w, ⟨hw, htimer⟩, rfl⟩ := hh
    refine ⟨w.timer, htimer, ?_⟩
    obtain ⟨w', hw'⟩ := Option.isSome_iff_exists.mp
      (List.find?_isSome.mpr ⟨w, hw, by simp⟩ :
        (cm.pending.find? fun x => decide (x.timer = w.timer)).isSome = true)
    have hsame : w'.timer = w.timer := by simpa using List.find?_some hw'
    rw [hw', h.eq_of_timer (List.mem_of_find?_eq_some hw') hw hsame]
    rfl

/-- Two tables are the same when the same waits are outstanding. -/
theorem table_ext {t t' : TimerTable}
    (h : ∀ p k callback, t p k = some callback ↔ t' p k = some callback) : t = t' := by
  funext p k
  exact Option.ext fun callback => h p k callback

/-! ### Starting -/

section Starts
variable {cm' : ConnectionManager} {playerId : String} {kind : TimerKind} {w : Wait}

theorem TimersInv.fresh (h : TimersInv cm) (hs : Starts cm cm' playerId kind w) {p : String}
    {k : TimerKind} (hother : ¬(p = playerId ∧ k = kind)) : cm.timerOf p k ≠ some w.timer := by
  intro htimer
  rcases hs.timer with hold | ⟨-, hnew⟩
  · exact hother (h.own p k playerId kind w.timer htimer hold)
  · have hlt := h.bound p k w.timer htimer
    omega

theorem TimersInv.starts (h : TimersInv cm) (hs : Starts cm cm' playerId kind w) :
    TimersInv cm' where
  bound := by
    intro p k timer htimer
    rw [hs.timerOf] at htimer
    have hnext := hs.next
    split_ifs at htimer
    · obtain rfl := Option.some.inj htimer
      rcases hs.timer with hold | ⟨hnone, -⟩
      · exact (h.bound _ _ _ hold).trans_le hnext
      · exact hs.bound hnone
    · exact (h.bound p k timer htimer).trans_le hnext
  own := by
    intro p k q l timer hp hq
    rw [hs.timerOf] at hp hq
    split_ifs at hp hq with hself hself' hself'
    · exact ⟨hself.1.trans hself'.1.symm, hself.2.trans hself'.2.symm⟩
    · obtain rfl := Option.some.inj hp
      exact absurd hq (h.fresh hs hself')
    · obtain rfl := Option.some.inj hq
      exact absurd hp (h.fresh hs hself)
    · exact h.own p k q l timer hp hq
  timed := by
    intro x hx
    rw [hs.pending, List.mem_append, List.mem_filter, List.mem_singleton] at hx
    rcases hx with ⟨hx, hne⟩ | rfl
    · obtain ⟨p, k, htimer⟩ := h.timed x hx
      refine ⟨p, k, ?_⟩
      rw [hs.timerOf, if_neg ?_, htimer]
      -- the timer started again has no old wait left
      rintro ⟨rfl, rfl⟩
      rcases hs.timer with hold | ⟨hnone, -⟩
      · exact absurd (Option.some.inj (htimer.symm.trans hold)) (by simpa using hne)
      · rw [htimer] at hnone
        cases hnone
    · exact ⟨playerId, kind, by rw [hs.timerOf, if_pos ⟨rfl, rfl⟩]⟩
  single := by
    rw [hs.pending, List.map_append, List.map_singleton, List.nodup_append]
    refine ⟨?_, List.nodup_singleton _, ?_⟩
    · exact h.single.sublist (List.filter_sublist.map _)
    · intro a ha b hb
      obtain ⟨x, hx, rfl⟩ := List.mem_map.mp ha
      rw [List.mem_singleton.mp hb]
      simpa using (List.mem_filter.mp hx).2
  ready := hs.ready.trans h.ready

/-- The new wait is the only one on its timer. -/
theorem outstanding_starts (hs : Starts cm cm' playerId kind w) {x : Wait} :
    cm'.Outstanding playerId kind x ↔ x = w := by
  rw [Outstanding, hs.timerOf, if_pos ⟨rfl, rfl⟩, hs.pending, List.mem_append, List.mem_filter,
    List.mem_singleton, Option.some.injEq]
  constructor
  · intro hh
    obtain ⟨⟨-, hne⟩ | hx, hsame⟩ := hh
    · exact absurd hsame.symm (by simpa using hne)
    · exact hx
  · rintro rfl
    exact ⟨.inr rfl, rfl⟩

/-- On this player's other timer, and on another player's, the waits stay. -/
theorem outstanding_starts_other (h : TimersInv cm) (hs : Starts cm cm' playerId kind w)
    {p : String} {k : TimerKind} (hother : ¬(p = playerId ∧ k = kind)) {x : Wait} :
    cm'.Outstanding p k x ↔ cm.Outstanding p k x := by
  rw [Outstanding, Outstanding, hs.timerOf, if_neg hother, hs.pending]
  refine and_congr_left fun htimer => ?_
  have hne : x.timer ≠ w.timer := by
    intro hsame
    exact h.fresh hs hother (hsame ▸ htimer)
  rw [List.mem_append, List.mem_filter, List.mem_singleton]
  constructor
  · intro hh
    rcases hh with ⟨hx, -⟩ | rfl
    · exact hx
    · exact absurd rfl hne
  · exact fun hx => .inl ⟨hx, by simpa using hne⟩

theorem table_starts (h : TimersInv cm) (hs : Starts cm cm' playerId kind w) :
    cm'.table = cm.table.set playerId kind (some w.callback) := by
  refine table_ext fun p k callback => ?_
  rw [(h.starts hs).table_eq_some, TimerTable.set]
  by_cases hself : p = playerId ∧ k = kind
  · rw [if_pos hself, Option.some.injEq]
    obtain ⟨rfl, rfl⟩ := hself
    simp only [outstanding_starts hs, exists_eq_left]
  · rw [if_neg hself, h.table_eq_some]
    simp only [outstanding_starts_other h hs hself]

end Starts

/-! ### Cancelling -/

theorem mem_timers_iff (cm : ConnectionManager) (playerId : String) (timer : ℕ) :
    timer ∈ (cm.timersOf playerId).graceTimer.toList ++ (cm.timersOf playerId).removalTimer.toList ↔
      ∃ k, cm.timerOf playerId k = some timer := by
  rw [List.mem_append, Option.mem_toList, Option.mem_toList]
  constructor
  · intro hh
    rcases hh with hgrace | hremoval
    · exact ⟨.grace, hgrace⟩
    · exact ⟨.removal, hremoval⟩
  · intro hh
    obtain ⟨k, hk⟩ := hh
    cases k with
    | grace => exact .inl hk
    | removal => exact .inr hk

/-- Cancelling drops the waits on the timers of one player, and these timers. -/
structure Cancels (cm cm' : ConnectionManager) (playerId : String) : Prop where
  next : cm'.nextTimer = cm.nextTimer
  pending : ∀ w, w ∈ cm'.pending ↔ w ∈ cm.pending ∧ ∀ k, cm.timerOf playerId k ≠ some w.timer
  sublist : cm'.pending.Sublist cm.pending
  ready : cm'.ready = cm.ready
  timerOf : ∀ p k, cm'.timerOf p k = if p = playerId then none else cm.timerOf p k

theorem cancelTimers_cancels (cm : ConnectionManager) (playerId : String) :
    Cancels cm (cm.cancelTimers playerId) playerId := by
  cases hl : cm.timers.lookup playerId with
  | none =>
    have hsame : cm.cancelTimers playerId = cm := by simp only [cancelTimers, hl]
    have hnone : ∀ k, cm.timerOf playerId k = none := by
      intro k
      rw [timerOf, timersOf, hl]
      exact PlayerTimers.ofKind_none k
    rw [hsame]
    refine ⟨rfl, fun w => ?_, List.Sublist.refl _, rfl, fun p k => ?_⟩
    · simp [hnone]
    · split_ifs with hp
      · rw [hp, hnone]
      · rfl
  | some timers =>
    have htimers : cm.timersOf playerId = timers := by rw [timersOf, hl, Option.getD_some]
    rw [cancelTimers_of_lookup hl]
    refine ⟨rfl, fun w => ?_, List.filter_sublist, rfl, fun p k => ?_⟩
    · rw [List.mem_filter, decide_eq_true_iff, ← htimers, mem_timers_iff, not_exists]
    · rw [timerOf, timersOf]
      split_ifs with hp
      · rw [hp, AList.lookup_erase]
        exact PlayerTimers.ofKind_none k
      · rw [AList.lookup_erase_ne hp]
        rfl

theorem TimersInv.cancels (h : TimersInv cm) {cm' : ConnectionManager} {playerId : String}
    (hc : Cancels cm cm' playerId) : TimersInv cm' where
  bound := by
    intro p k timer htimer
    rw [hc.timerOf] at htimer
    split_ifs at htimer
    rw [hc.next]
    exact h.bound p k timer htimer
  own := by
    intro p k q l timer hp hq
    rw [hc.timerOf] at hp hq
    split_ifs at hp hq
    exact h.own p k q l timer hp hq
  timed := by
    intro w hw
    obtain ⟨hw, hothers⟩ := (hc.pending w).mp hw
    obtain ⟨p, k, htimer⟩ := h.timed w hw
    refine ⟨p, k, ?_⟩
    rw [hc.timerOf, if_neg, htimer]
    rintro rfl
    exact hothers k htimer
  single := h.single.sublist (hc.sublist.map _)
  ready := hc.ready.trans h.ready

/-- The waits of the other players stay outstanding. -/
theorem outstanding_cancels (h : TimersInv cm) {cm' : ConnectionManager} {playerId : String}
    (hc : Cancels cm cm' playerId) {p : String} {k : TimerKind} {x : Wait} :
    cm'.Outstanding p k x ↔ p ≠ playerId ∧ cm.Outstanding p k x := by
  rw [Outstanding, Outstanding, hc.timerOf, hc.pending]
  split_ifs with hp
  · simp [hp]
  · rw [and_iff_right hp]
    refine and_congr_left fun htimer => and_iff_left fun l hl => hp ?_
    exact (h.own p k playerId l x.timer htimer hl).1

theorem table_cancels (h : TimersInv cm) {cm' : ConnectionManager} {playerId : String}
    (hc : Cancels cm cm' playerId) :
    cm'.table = fun p k => if p = playerId then none else cm.table p k := by
  refine table_ext fun p k callback => ?_
  rw [(h.cancels hc).table_eq_some]
  simp only [outstanding_cancels h hc]
  split_ifs with hp
  · simp [hp]
  · simp [hp, h.table_eq_some]

/-! ### Firing -/

/-- The wait `w` is over and its callback runs. -/
structure Fires (cm cm' : ConnectionManager) (w : Wait) : Prop where
  mem : w ∈ cm.pending
  next : cm'.nextTimer = cm.nextTimer
  pending : ∀ x, x ∈ cm'.pending ↔ x ∈ cm.pending ∧ x ≠ w
  sublist : cm'.pending.Sublist cm.pending
  ready : cm'.ready = cm.ready
  timers : cm'.timers = cm.timers

theorem TimersInv.pending_nodup (h : TimersInv cm) : cm.pending.Nodup := h.single.of_map _

theorem TimersInv.passes_cases (h : TimersInv cm) (i : ℕ) :
    cm.pending[i]? = none ∧ cm.apply (.passes i) = (cm, []) ∨
    ∃ w, cm.pending[i]? = some w ∧ (cm.apply (.passes i)).2 = [w.callback] ∧
      Fires cm (cm.apply (.passes i)).1 w := by
  cases hw : cm.pending[i]? with
  | none =>
    refine .inl ⟨rfl, ?_⟩
    have hsame : cm.expire i = cm := by simp only [expire, hw]
    have hempty : { cm with ready := [] } = cm := by rw [← h.ready]
    simp only [apply, hsame, take, h.ready, List.eraseIdx_nil, hempty]
    rfl
  | some w =>
    obtain ⟨hi, rfl⟩ := List.getElem?_eq_some_iff.mp hw
    have hfires : cm.apply (.passes i)
        = ({ cm with pending := cm.pending.eraseIdx i }, [cm.pending[i].callback]) := by
      simp only [apply, expire, hw, take, h.ready]
      rfl
    rw [hfires]
    refine .inr ⟨_, rfl, rfl, List.getElem_mem hi, rfl, fun x => ?_, List.eraseIdx_sublist _ _, rfl,
      rfl⟩
    rw [← h.pending_nodup.erase_getElem i hi, h.pending_nodup.mem_erase_iff, and_comm]

section Fires
variable {cm' : ConnectionManager} {w : Wait}

theorem Fires.timerOf (hf : Fires cm cm' w) (p : String) (k : TimerKind) :
    cm'.timerOf p k = cm.timerOf p k := by
  rw [ConnectionManager.timerOf, ConnectionManager.timerOf, timersOf, timersOf, hf.timers]

theorem TimersInv.fires (h : TimersInv cm) (hf : Fires cm cm' w) : TimersInv cm' where
  bound := by
    intro p k timer htimer
    rw [hf.timerOf] at htimer
    rw [hf.next]
    exact h.bound p k timer htimer
  own := by
    intro p k q l timer hp hq
    rw [hf.timerOf] at hp hq
    exact h.own p k q l timer hp hq
  timed := by
    intro x hx
    obtain ⟨p, k, htimer⟩ := h.timed x ((hf.pending x).mp hx).1
    exact ⟨p, k, (hf.timerOf p k).trans htimer⟩
  single := h.single.sublist (hf.sublist.map _)
  ready := hf.ready.trans h.ready

/-- Only the wait that fires is no longer outstanding. -/
theorem outstanding_fires (hf : Fires cm cm' w) {p : String} {k : TimerKind} {x : Wait} :
    cm'.Outstanding p k x ↔ cm.Outstanding p k x ∧ x ≠ w := by
  rw [Outstanding, Outstanding, hf.pending, hf.timerOf]
  exact and_right_comm

theorem table_fires (h : TimersInv cm) (hf : Fires cm cm' w) {playerId : String} {kind : TimerKind}
    (htimer : cm.timerOf playerId kind = some w.timer) :
    cm'.table = cm.table.set playerId kind none ∧ cm.table playerId kind = some w.callback := by
  refine ⟨?_, h.table_eq_some.mpr ⟨w, ⟨hf.mem, htimer⟩, rfl⟩⟩
  refine table_ext fun p k callback => ?_
  rw [(h.fires hf).table_eq_some, TimerTable.set]
  simp only [outstanding_fires hf]
  split_ifs with hself
  · -- the timer had no other wait
    obtain ⟨rfl, rfl⟩ := hself
    refine iff_of_false ?_ (by simp)
    intro hh
    obtain ⟨x, ⟨⟨hx, hsame⟩, hne⟩, -⟩ := hh
    exact hne (h.eq_of_timer hx hf.mem (Option.some.inj (hsame.symm.trans htimer)))
  · rw [h.table_eq_some]
    refine exists_congr fun x => and_congr_left fun _ => and_iff_left_of_imp fun hx => ?_
    rintro rfl
    exact hself (h.own p k playerId kind x.timer hx.2 htimer)

end Fires

/-! ### The table is refined -/

/-- Each call is the events it stands for: the same table afterwards, the same
callbacks run. -/
theorem apply_refines (h : TimersInv cm) (op : TimerOp) :
    TimersInv (cm.apply op).1 ∧ ∃ events, Stands op events ∧
      (cm.apply op).1.table = events.foldl TimerTable.machine.next cm.table ∧
      (cm.apply op).2 = TimerTable.machine.traceFrom cm.table events := by
  cases op with
  | startGraceTimer playerId ms onExpiry =>
    obtain ⟨timer, hs⟩ := startTimer_starts cm playerId .grace ms onExpiry
    exact ⟨h.starts hs, _, .grace playerId ms onExpiry, table_starts h hs, rfl⟩
  | startRemovalTimer playerId ms onExpiry =>
    obtain ⟨timer, hs⟩ := startTimer_starts cm playerId .removal ms onExpiry
    exact ⟨h.starts hs, _, .removal playerId ms onExpiry, table_starts h hs, rfl⟩
  | cancelTimers playerId =>
    have hc := cancelTimers_cancels cm playerId
    exact ⟨h.cancels hc, _, .cancel playerId, table_cancels h hc, rfl⟩
  | passes i =>
    rcases h.passes_cases i with ⟨-, hr⟩ | ⟨w, -, hout, hf⟩
    · rw [hr]
      exact ⟨h, [], .idle i, rfl, rfl⟩
    · obtain ⟨playerId, kind, htimer⟩ := h.timed w hf.mem
      obtain ⟨htable, hold⟩ := table_fires h hf htimer
      refine ⟨h.fires hf, _, .fires i playerId kind, htable, ?_⟩
      rw [hout]
      show [w.callback] = (cm.table playerId kind).toList ++ []
      rw [hold]
      rfl

theorem run_timersInv (ops : List TimerOp) : TimersInv (machine.run ops) :=
  machine.invariant TimersInv.new (fun _ op h => (apply_refines h op).1) ops

/-- The run of the table that stands for the calls. -/
def RefinesTable (ops : List TimerOp) : Prop :=
  ∃ events, List.Forall₂ Stands ops events ∧
    (machine.run ops).table = TimerTable.machine.run events.flatten ∧
    machine.trace ops = TimerTable.machine.trace events.flatten

theorem run_refinesTable (ops : List TimerOp) : RefinesTable ops := by
  induction ops using List.reverseRecOn with
  | nil =>
    have hempty : new.table = fun _ _ => none := by
      funext playerId kind
      cases kind <;> rfl
    exact ⟨[], .nil, hempty, rfl⟩
  | append_singleton ops op ih =>
    obtain ⟨events, hstands, htable, htrace⟩ := ih
    obtain ⟨-, last, hlast, htable', hout⟩ := apply_refines (run_timersInv ops) op
    refine ⟨events ++ [last], List.rel_append hstands (.cons hlast .nil), ?_, ?_⟩
    · rw [Machine.run_concat, List.flatten_concat, Machine.run_append, ← htable]
      exact htable'
    · rw [Machine.trace_concat, List.flatten_concat, Machine.trace_append, ← htable, htrace]
      exact congrArg (TimerTable.machine.trace events.flatten ++ ·) hout

/-! ### `hasActiveTimers` -/

/-- `hasActiveTimers` tells who has a timer outstanding. -/
def ActiveExact (cm : ConnectionManager) : Prop :=
  ∀ playerId, cm.hasActiveTimers playerId = true ↔ ∃ kind w, cm.Outstanding playerId kind w

/-- The player whose timer fires has his other timer outstanding. -/
def LeavesAnother (cm : ConnectionManager) (op : TimerOp) : Prop :=
  ∀ i w playerId kind, op = .passes i → cm.pending[i]? = some w →
    cm.Outstanding playerId kind w → ∃ other w', other ≠ kind ∧ cm.Outstanding playerId other w'

theorem hasActiveTimers_iff (cm : ConnectionManager) (playerId : String) :
    cm.hasActiveTimers playerId = true ↔ ∃ kind, cm.timerOf playerId kind ≠ none := by
  have hkinds : (∃ kind, cm.timerOf playerId kind ≠ none) ↔
      (cm.timersOf playerId).graceTimer ≠ none ∨ (cm.timersOf playerId).removalTimer ≠ none := by
    constructor
    · intro hh
      obtain ⟨kind, hkind⟩ := hh
      cases kind with
      | grace => exact .inl hkind
      | removal => exact .inr hkind
    · intro hh
      rcases hh with hgrace | hremoval
      · exact ⟨.grace, hgrace⟩
      · exact ⟨.removal, hremoval⟩
  rw [hkinds, hasActiveTimers, timersOf]
  cases cm.timers.lookup playerId with
  | none => simp
  | some timers => simp [Option.isSome_iff_ne_none]

/-- Exact when whoever has a timer has one outstanding. -/
theorem activeExact_iff : ActiveExact cm ↔ ∀ playerId kind, cm.timerOf playerId kind ≠ none →
    ∃ other w, cm.Outstanding playerId other w := by
  unfold ActiveExact
  simp only [hasActiveTimers_iff]
  constructor
  · intro hexact playerId kind hkind
    exact (hexact playerId).mp ⟨kind, hkind⟩
  · intro hall playerId
    constructor
    · intro hh
      obtain ⟨kind, hkind⟩ := hh
      exact hall playerId kind hkind
    · intro hh
      obtain ⟨kind, w, -, htimer⟩ := hh
      exact ⟨kind, by rw [htimer]; simp⟩

theorem activeExact_new : ActiveExact new := by
  rw [activeExact_iff]
  intro playerId kind hkind
  exact absurd (PlayerTimers.ofKind_none kind) hkind

section
variable {cm' : ConnectionManager} {playerId : String}

theorem ActiveExact.starts (ha : ActiveExact cm) (h : TimersInv cm) {kind : TimerKind} {w : Wait}
    (hs : Starts cm cm' playerId kind w) : ActiveExact cm' := by
  rw [activeExact_iff] at ha ⊢
  intro p k hk
  by_cases hp : p = playerId
  · -- the new wait itself
    subst hp
    exact ⟨kind, w, (outstanding_starts hs).mpr rfl⟩
  · have hother : ∀ l, ¬(p = playerId ∧ l = kind) := fun l hself => hp hself.1
    rw [hs.timerOf, if_neg (hother k)] at hk
    obtain ⟨other, x, hx⟩ := ha p k hk
    exact ⟨other, x, (outstanding_starts_other h hs (hother other)).mpr hx⟩

theorem ActiveExact.cancels (ha : ActiveExact cm) (h : TimersInv cm)
    (hc : Cancels cm cm' playerId) : ActiveExact cm' := by
  rw [activeExact_iff] at ha ⊢
  intro p k hk
  rw [hc.timerOf] at hk
  split_ifs at hk with hp
  · exact absurd rfl hk
  · obtain ⟨other, x, hx⟩ := ha p k hk
    exact ⟨other, x, (outstanding_cancels h hc).mpr ⟨hp, hx⟩⟩

/-- Firing takes neither the timer nor the entry of its player away. -/
theorem ActiveExact.fires_iff (ha : ActiveExact cm) (h : TimersInv cm) {w : Wait}
    (hf : Fires cm cm' w) : ActiveExact cm' ↔ ∀ playerId kind, cm.Outstanding playerId kind w →
      ∃ other w', other ≠ kind ∧ cm.Outstanding playerId other w' := by
  rw [activeExact_iff] at ha ⊢
  constructor
  · intro hexact p k hw
    have hkept : cm'.timerOf p k ≠ none := by
      rw [hf.timerOf, hw.2]
      simp
    obtain ⟨other, x, hx⟩ := hexact p k hkept
    obtain ⟨hx, hne⟩ := (outstanding_fires hf).mp hx
    refine ⟨other, x, ?_, hx⟩
    rintro rfl
    exact hne (h.eq_of_timer hx.1 hw.1 (Option.some.inj (hx.2.symm.trans hw.2)))
  · intro hleaves p k hk
    rw [hf.timerOf] at hk
    obtain ⟨l, x, hx⟩ := ha p k hk
    by_cases hxw : x = w
    · subst hxw
      obtain ⟨other, w', hne, hw'⟩ := hleaves p l hx
      refine ⟨other, w', (outstanding_fires hf).mpr ⟨hw', ?_⟩⟩
      rintro rfl
      exact hne (h.own p other p l w'.timer hw'.2 hx.2).2
    · exact ⟨l, x, (outstanding_fires hf).mpr ⟨hx, hxw⟩⟩

end

theorem ActiveExact.apply_iff (ha : ActiveExact cm) (h : TimersInv cm) (op : TimerOp) :
    ActiveExact (cm.apply op).1 ↔ LeavesAnother cm op := by
  cases op with
  | startGraceTimer playerId ms onExpiry =>
    obtain ⟨timer, hs⟩ := startTimer_starts cm playerId .grace ms onExpiry
    refine iff_of_true (ha.starts h hs) ?_
    intro i w p kind hop
    cases hop
  | startRemovalTimer playerId ms onExpiry =>
    obtain ⟨timer, hs⟩ := startTimer_starts cm playerId .removal ms onExpiry
    refine iff_of_true (ha.starts h hs) ?_
    intro i w p kind hop
    cases hop
  | cancelTimers playerId =>
    refine iff_of_true (ha.cancels h (cancelTimers_cancels cm playerId)) ?_
    intro i w p kind hop
    cases hop
  | passes i =>
    rcases h.passes_cases i with ⟨hnone, hr⟩ | ⟨w, hw, -, hf⟩
    · rw [hr]
      refine iff_of_true ha ?_
      intro j w p kind hop hsome
      obtain rfl := TimerOp.passes.inj hop
      rw [hnone] at hsome
      cases hsome
    · rw [ha.fires_iff h hf]
      constructor
      · intro hall j x p kind hop hsome hx
        obtain rfl := TimerOp.passes.inj hop
        obtain rfl := Option.some.inj (hw.symm.trans hsome)
        exact hall p kind hx
      · intro hleaves p kind hx
        exact hleaves i w p kind rfl hw hx

/-- The table is always refined; `hasActiveTimers` is right after every call as
long as no timer fires that is its player's last. -/
theorem refinesTable_and_active_iff (ops : List TimerOp) :
    (RefinesTable ops ∧ ∀ pre, pre <+: ops → ActiveExact (machine.run pre)) ↔
      machine.EveryStep LeavesAnother ops := by
  rw [and_iff_right (run_refinesTable ops)]
  exact machine.always_iff activeExact_new ops fun pre op _ ha =>
    ha.apply_iff (run_timersInv pre) op

/-- A grace timer that has fired still counts as active. -/
theorem fired_timer_active :
    let ops : List TimerOp :=
      [.startGraceTimer "player3" 30 (.graceTimerExpired "player3"), .passes 0]
    machine.trace ops = [.graceTimerExpired "player3"] ∧
      (machine.run ops).table "player3" .grace = none ∧
      (machine.run ops).table "player3" .removal = none ∧
      (machine.run ops).hasActiveTimers "player3" = true ∧
      ¬ActiveExact (machine.run ops) := by
  refine ⟨rfl, rfl, rfl, rfl, fun hexact => ?_⟩
  obtain ⟨kind, w, hw, -⟩ := (hexact "player3").mp rfl
  cases hw

end ConnectionManager
end HeadsUp.Server
