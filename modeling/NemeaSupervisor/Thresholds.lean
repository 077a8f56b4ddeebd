import Mathlib.Data.List.Induction

/-!
# Thresholds passed one by one

A level starts at 0 and goes up by one with every value that comes up to the threshold
of the level. When the values do not decrease, the level after them has a closed form
in the numbers of values that come up to each threshold, whatever the thresholds are.
-/

namespace Thresholds

/-- One value. -/
def pass (threshold : Nat → Nat) (k s : Nat) : Nat := if threshold k ≤ s then k + 1 else k

/-- The level after the values, the oldest first. -/
def level (threshold : Nat → Nat) (ss : List Nat) : Nat := ss.foldl (pass threshold) 0

/-- How many values come up to the threshold of a level. -/
def passing (threshold : Nat → Nat) (m : Nat) (ss : List Nat) : Nat :=
  ss.countP fun s => decide (threshold m ≤ s)

/-- For every level below `k` there are values enough to get from it to `k`. -/
def Reached (threshold : Nat → Nat) (k : Nat) (ss : List Nat) : Prop :=
  ∀ m < k, k - m ≤ passing threshold m ss

instance (threshold : Nat → Nat) (k : Nat) (ss : List Nat) : Decidable (Reached threshold k ss) :=
  inferInstanceAs (Decidable (∀ m < k, _))

variable {threshold : Nat → Nat} {ss : List Nat} {k s : Nat}

@[simp] theorem level_nil : level threshold [] = 0 := rfl

theorem level_concat (ss : List Nat) (s : Nat) :
    level threshold (ss ++ [s]) = pass threshold (level threshold ss) s := by
  rw [level, List.foldl_append]
  rfl

theorem passing_concat (m : Nat) (ss : List Nat) (s : Nat) :
    passing threshold m (ss ++ [s]) = passing threshold m ss + if threshold m ≤ s then 1 else 0 := by
  simp [passing, List.countP_append, List.countP_singleton]

theorem passing_le_concat (m : Nat) (ss : List Nat) (s : Nat) :
    passing threshold m ss ≤ passing threshold m (ss ++ [s]) := by
  rw [passing_concat]
  exact Nat.le_add_right _ _

/-- A threshold that an earlier value has come up to is not above a later one. -/
theorem threshold_le_of_passing {m : Nat} (hpassing : 0 < passing threshold m ss)
    (hle : ∀ s' ∈ ss, s' ≤ s) : threshold m ≤ s := by
  obtain ⟨s', hs', hpass⟩ := List.countP_pos_iff.mp hpassing
  exact Nat.le_trans (of_decide_eq_true hpass) (hle s' hs')

theorem Reached.of_le (h : Reached threshold k ss) {k' : Nat} (hle : k' ≤ k) :
    Reached threshold k' ss := fun m hm =>
  Nat.le_trans (Nat.sub_le_sub_right hle m) (h m (Nat.lt_of_lt_of_le hm hle))

theorem Reached.concat (h : Reached threshold k ss) (s : Nat) :
    Reached threshold k (ss ++ [s]) := fun m hm =>
  Nat.le_trans (h m hm) (passing_le_concat m ss s)

/-- A value that passes makes up for one more level. -/
theorem Reached.pass (h : Reached threshold k ss) (hle : ∀ s' ∈ ss, s' ≤ s)
    (hs : threshold k ≤ s) : Reached threshold (k + 1) (ss ++ [s]) := by
  intro m hm
  rw [passing_concat]
  rcases Nat.lt_or_eq_of_le (Nat.le_of_lt_succ hm) with hbelow | rfl
  · have hcount := h m hbelow
    have hpositive : 0 < passing threshold m ss := by omega
    have hpass := threshold_le_of_passing hpositive hle
    rw [if_pos hpass]
    omega
  · rw [if_pos hs]
    omega

/-- One value makes up for one level at most. -/
theorem Reached.of_concat (h : Reached threshold (k + 1) (ss ++ [s])) :
    Reached threshold k ss := by
  intro m hm
  have hcount := h m (Nat.lt_succ_of_lt hm)
  rw [passing_concat] at hcount
  split at hcount <;> omega

/-- A value that does not pass makes up for none. -/
theorem Reached.of_concat_below (h : Reached threshold (k + 1) (ss ++ [s]))
    (hle : ∀ s' ∈ ss, s' ≤ s) (hs : s < threshold k) : False := by
  have hcount := h k (Nat.lt_succ_self k)
  rw [passing_concat, if_neg (Nat.not_le.mpr hs)] at hcount
  have hpositive : 0 < passing threshold k ss := by omega
  have hpass := threshold_le_of_passing hpositive hle
  omega

/-- The level that values without a decrease come to. -/
theorem le_level_iff (hmono : ss.Pairwise (· ≤ ·)) :
    k ≤ level threshold ss ↔ Reached threshold k ss := by
  induction ss using List.reverseRecOn generalizing k with
  | nil =>
    constructor
    · intro hk m hm
      exact absurd (Nat.lt_of_lt_of_le hm hk) (Nat.not_lt_zero m)
    · intro h
      rcases Nat.eq_zero_or_pos k with rfl | hpos
      · exact Nat.le_refl 0
      · have hzero := h 0 hpos
        simp only [passing, List.countP_nil] at hzero
        omega
  | append_singleton ss s ih =>
    obtain ⟨hss, -, hlast⟩ := List.pairwise_append.mp hmono
    have hle : ∀ s' ∈ ss, s' ≤ s := fun s' hs' => hlast s' hs' s (List.mem_singleton_self s)
    have hreached := (ih hss).mp (Nat.le_refl (level threshold ss))
    rw [level_concat, Thresholds.pass]
    split
    · next hpass =>
      refine ⟨fun hk => (hreached.pass hle hpass).of_le hk, fun h => ?_⟩
      cases k with
      | zero => exact Nat.zero_le _
      | succ k => exact Nat.succ_le_succ ((ih hss).mpr h.of_concat)
    · next hbelow =>
      refine ⟨fun hk => (hreached.of_le hk).concat s, fun h => Nat.le_of_not_lt fun hlt => ?_⟩
      exact (h.of_le hlt).of_concat_below hle (Nat.lt_of_not_le hbelow)

/-- The level is `k` when `k` is reached and the next one is not. -/
theorem level_eq_iff (hmono : ss.Pairwise (· ≤ ·)) :
    level threshold ss = k ↔ Reached threshold k ss ∧ ¬ Reached threshold (k + 1) ss := by
  rw [← le_level_iff hmono, ← le_level_iff hmono]
  omega

end Thresholds
