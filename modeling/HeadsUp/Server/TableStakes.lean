import HeadsUp.Server.Accounting
import HeadsUp.Server.Sessions

/-!
# Table stakes

During a hand the stacks of its two players and the pot keep their total, but
for `handleTopUp`: it does not ask whether a hand is in progress.
-/

namespace HeadsUp.Server
open HeadsUp.Core HeadsUp.Common HeadsUp.Lib

theorem TableInv.hand_players {Ok : Hand → Prop} {tm : TableManager} {nextRef : PlayerRef}
    (h : TableInv Ok tm nextRef) {hand : Hand} (hhand : tm.table.currentHand = some hand) :
    hand.players.Perm tm.players := by
  obtain ⟨hplay, -⟩ := h.playing hand hhand
  obtain ⟨h1, h2⟩ := h.both (by rw [hhand]; rfl)
  obtain ⟨p, q, -, -, hpair⟩ := h.pair h1 h2
  obtain ⟨x, y, hxy, -⟩ := hplay.two
  have hlen : tm.players.length ≤ hand.players.length := by simp [← hpair.length_eq, hxy]
  exact (List.subperm_of_subset hplay.nodup hplay.mem).perm_of_length_le hlen

namespace GameSession

/-- The chips in play in the current hand. -/
def stakes (s : GameSession) : Option ℤ :=
  s.hand.map fun hand => stackSum s.tableManager.heap hand.players + hand.pot

/-- If the hand goes on, its chips stay. -/
def KeepsStakes (s : GameSession) (e : Event) : Prop :=
  ∀ x ∈ s.stakes, ∀ y ∈ (s.step e).1.stakes, y = x

/-- The event tops up a player during a hand: a `top_up` message of a session
whose player has less than the threshold. -/
def TopsUpInHand (s : GameSession) (e : Event) : Prop :=
  s.hand.isSome = true ∧ ∃ session json c playerId player,
    e = .message session (some json) c ∧ asksTopUp json = true ∧
      s.sessionToPlayer.lookup session = some playerId ∧
      s.tableManager.getPlayer playerId = some player ∧
      (s.tableManager.heap player).needsTopUp = true

variable {s : GameSession}

theorem stakes_eq (h : TableInv Unfolded s.tableManager s.nextRef) :
    s.stakes = if s.hand.isSome then some (tableChips s.tableManager) else none := by
  unfold stakes
  cases hhand : s.hand with
  | none => rfl
  | some hand =>
    have hcurrent : s.tableManager.table.currentHand = some hand := hhand
    have hsum := ((h.hand_players hcurrent).map fun p => (s.tableManager.heap p).stack).sum_eq
    simp only [Option.map_some, Option.isSome_some, if_true, tableChips, currentPot, hcurrent]
    rw [stackSum, hsum, stackSum]

theorem topUp_ne_iff (p : Player) : p.topUp.stack - p.stack ≠ 0 ↔ p.needsTopUp = true := by
  unfold Player.topUp Player.needsTopUp
  split_ifs with hneeds
  · have hlt : p.stack < topUpThreshold := by simpa using hneeds
    have hle : topUpThreshold ≤ targetStack := by decide
    exact iff_of_true (by simp only; omega) hneeds
  · exact iff_of_false (by simp) hneeds

theorem topUpOf_ne_iff {session : SessionId} :
    s.topUpOf session ≠ 0 ↔ ∃ playerId player, s.sessionToPlayer.lookup session = some playerId ∧
      s.tableManager.getPlayer playerId = some player ∧
      (s.tableManager.heap player).needsTopUp = true := by
  unfold topUpOf
  cases s.sessionToPlayer.lookup session with
  | none => simp
  | some playerId =>
    cases hget : s.tableManager.getPlayer playerId with
    | none => simp [hget]
    | some player => simp [hget, topUp_ne_iff]

theorem topsUpInHand_iff {e : Event} :
    TopsUpInHand s e ↔ s.hand.isSome = true ∧ s.topUpBy e ≠ 0 := by
  unfold TopsUpInHand
  refine and_congr_right fun _ => ?_
  constructor
  · intro hh
    obtain ⟨session, json, c, playerId, player, rfl, hasks, hrest⟩ := hh
    rw [topUpBy, if_pos hasks]
    exact topUpOf_ne_iff.mpr ⟨playerId, player, hrest⟩
  · intro hne
    cases e with
    | message session text c =>
      cases text with
      | none => exact absurd rfl hne
      | some json =>
        rw [topUpBy] at hne
        split_ifs at hne with hasks
        · obtain ⟨playerId, player, hrest⟩ := topUpOf_ne_iff.mp hne
          exact ⟨session, json, c, playerId, player, rfl, hasks, hrest⟩
        · exact absurd rfl hne
    | _ => exact absurd rfl hne

theorem topUp_hand {e : Event} (h : s.topUpBy e ≠ 0) : (s.step e).1.hand = s.hand := by
  cases e with
  | message session text c =>
    cases text with
    | none => exact absurd rfl h
    | some json =>
      rw [topUpBy] at h
      split_ifs at h with hasks
      · obtain ⟨playerId, player, hsession, hget, -⟩ := topUpOf_ne_iff.mp h
        rcases dispatch_cases s json session c with ⟨-, heq⟩ | ⟨hno, -⟩
        · simp only [step, handleMessage, heq, handleTopUp, hsession, hget, caught]
          rfl
        · rw [hasks] at hno
          cases hno
      · exact absurd rfl h
  | _ => exact absurd rfl h

theorem keepsStakes_iff (h : TableInv Unfolded s.tableManager s.nextRef) (e : Event) :
    KeepsStakes s e ↔ ¬TopsUpInHand s e := by
  -- the stakes are the chips of the table, which move by the top-up of the event
  obtain ⟨hinv, hchips, hstakes⟩ := step_accounted h e
  rw [topsUpInHand_iff, KeepsStakes, stakes_eq h, stakes_eq hinv]
  constructor
  · intro hkeeps hh
    obtain ⟨hhand, hne⟩ := hh
    have hafter : (s.step e).1.hand.isSome = true := by rw [topUp_hand hne, hhand]
    have heq := hkeeps _ (by rw [hhand]; rfl) _ (by rw [hafter]; rfl)
    have hzero := hstakes hhand hafter
    omega
  · intro hno x hx y hy
    split_ifs at hx hy with hbefore hafter
    · have hzero : s.topUpBy e = 0 := by
        by_contra hne
        exact hno ⟨hbefore, hne⟩
      have hcredits := hstakes hbefore hafter
      obtain rfl := Option.mem_some_iff.mp hx
      obtain rfl := Option.mem_some_iff.mp hy
      omega
    · cases hy
    all_goals cases hx

/-- In a run the stakes of every hand are kept exactly when no message tops up
during a hand. -/
theorem tableStakes_iff (config : Config) (es : List Event) :
    (machine config).EveryStep KeepsStakes es ↔
      (machine config).EveryStep (fun s e => ¬TopsUpInHand s e) es :=
  (machine config).everyStep_congr (fun pre e => keepsStakes_iff (run_inv config pre) e) es

/-! ### A top-up during a hand -/

/-- Bob raises and keeps a stack of 10. -/
def shortStack : List Event := bothJoined ++ [sent 1 (.action "hand_1" "raise" 390)]

/-- He then asks for a top-up: 390 chips come into the hand. -/
theorem stakes_after_topUp :
    ¬(machine ⟨30000, 60000⟩).EveryStep KeepsStakes (shortStack ++ [sent 1 .topUp]) := by
  intro h
  have hkept := h shortStack (sent 1 .topUp) (List.prefix_refl _) 800 (by decide +kernel) 1190
    (by decide +kernel)
  cases hkept

end GameSession
end HeadsUp.Server
