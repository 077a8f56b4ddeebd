import Mathlib.Order.Basic

/-!
# Rate meters

A counter and a timer that limit how often something may succeed. The timer ends
a period after a fixed number of ticks and clears the counter; the first success
of a period starts the timer anew. A counter of -1 is for an attempt that does
not count. The limit holds within a period, so a window of the length of a
period, which can meet two of them, allows less than twice the limit.
-/

namespace RateMeter

structure Meter where
  cnt : Int
  timer : Nat

namespace Meter

variable {period : Nat} {limit : Int} {m : Meter}

/-- One tick. -/
def tick (period : Nat) (m : Meter) : Meter :=
  if m.timer + 1 ≥ period then ⟨if m.cnt > 0 then 0 else m.cnt, 0⟩
  else ⟨m.cnt, m.timer + 1⟩

theorem tick_end (h : m.timer + 1 ≥ period) :
    m.tick period = ⟨if m.cnt > 0 then 0 else m.cnt, 0⟩ := if_pos h

theorem tick_next (h : ¬ m.timer + 1 ≥ period) : m.tick period = ⟨m.cnt, m.timer + 1⟩ := if_neg h

/-- One attempt. -/
def charge (success : Bool) (m : Meter) : Meter :=
  ⟨m.cnt + 1, if success = true ∧ m.cnt + 1 = 1 then 0 else m.timer⟩

/-- The successes that count. -/
def cost (success : Bool) (m : Meter) : Nat := if success = true ∧ 0 ≤ m.cnt then 1 else 0

/-! ## The counter never runs ahead of the timer -/

/-- Between ticks the counter is at most one ahead. -/
def Timely (m : Meter) : Prop := -1 ≤ m.cnt ∧ m.cnt ≤ m.timer + 1

theorem Timely.tick (h : Timely m) (period : Nat) :
    -1 ≤ (m.tick period).cnt ∧ (m.tick period).cnt ≤ (m.tick period).timer := by
  unfold Timely at h
  unfold Meter.tick
  split_ifs <;> simp only [] <;> omega

theorem cnt_of_tick_neg (period : Nat) (h : (m.tick period).cnt = -1) : m.cnt = -1 := by
  unfold Meter.tick at h
  split_ifs at h <;> simp_all

theorem tick_timer_lt (hp : 0 < period) (m : Meter) : (m.tick period).timer < period := by
  unfold tick
  split_ifs <;> simp only [] <;> omega

theorem timely_charge (h : -1 ≤ m.cnt ∧ m.cnt ≤ m.timer) (success : Bool) :
    Timely (m.charge success) := by
  unfold Timely charge
  simp only []
  split_ifs <;> omega

/-! ## Windows -/

/-- The counter is at most the limit. -/
def Within (limit : Int) (m : Meter) : Prop := -1 ≤ m.cnt ∧ m.cnt ≤ limit

/-- How many more successes the next `n` ticks allow. -/
def budget (period : Nat) (limit : Int) (n : Nat) (m : Meter) : Int :=
  if n + m.timer < period then limit - max m.cnt 0
  else if 1 ≤ m.cnt then 2 * limit - m.cnt
  else 2 * limit - 1

theorem Within.tick (hl : 1 ≤ limit) (h : Within limit m) (period : Nat) :
    Within limit (m.tick period) := by
  unfold Within at h ⊢
  unfold Meter.tick
  split_ifs <;> simp only [] <;> omega

theorem Within.charge (h : Within limit m) (hne : m.cnt ≠ limit) (success : Bool) :
    Within limit (m.charge success) := by
  unfold Within at h ⊢
  unfold Meter.charge
  simp only []
  omega

theorem Within.budget_nonneg (hl : 1 ≤ limit) (h : Within limit m) (period n : Nat) :
    0 ≤ m.budget period limit n := by
  unfold Within at h
  unfold budget
  split_ifs <;> omega

theorem budget_le (hl : 1 ≤ limit) (m : Meter) (period n : Nat) :
    m.budget period limit n ≤ 2 * limit - 1 := by
  unfold budget
  split_ifs <;> omega

theorem Within.budget_mono (hl : 1 ≤ limit) (h : Within limit m) (period n : Nat) :
    m.budget period limit n ≤ m.budget period limit (n + 1) := by
  unfold Within at h
  unfold budget
  split_ifs <;> omega

/-- A tick uses up nothing. -/
theorem Within.budget_tick (hl : 1 ≤ limit) (h : Within limit m) {n : Nat} (hn : n + 1 ≤ period) :
    (m.tick period).budget period limit n ≤ m.budget period limit (n + 1) := by
  unfold Within at h
  by_cases hend : m.timer + 1 ≥ period
  · rw [tick_end hend]
    simp only [budget]
    split_ifs <;> omega
  · rw [tick_next hend]
    simp only [budget]
    split_ifs <;> omega

/-- A tick and an attempt use up what the attempt costs. -/
theorem Within.budget_charge (hl : 1 ≤ limit) (h : Within limit m) {n : Nat} (hn : n + 1 ≤ period)
    (success : Bool) :
    (m.tick period).cost success + ((m.tick period).charge success).budget period limit n ≤
      m.budget period limit (n + 1) := by
  unfold Within at h
  by_cases hend : m.timer + 1 ≥ period
  · rw [tick_end hend]
    simp only [budget, Meter.charge, cost]
    cases success
    · simp only [Bool.false_eq_true, false_and, if_false]
      split_ifs <;> omega
    · simp only [true_and]
      split_ifs <;> omega
  · rw [tick_next hend]
    simp only [budget, Meter.charge, cost]
    cases success
    · simp only [Bool.false_eq_true, false_and, if_false]
      split_ifs <;> omega
    · simp only [true_and]
      split_ifs <;> omega

end Meter

end RateMeter
