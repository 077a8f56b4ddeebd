import Mathlib.Data.List.Nodup
import Mathlib.Data.List.Range
import Mathlib.Data.Nat.Find
import NemeaSupervisor.Loop

/-!
# Loops that delete from the array they go over

A loop over the slots of an array deletes some of them, so that the slots behind
move up, and treats the others; its index grows in either case. The loop comes to
every slot that stays if and only if it deletes nothing but the last one.
-/

namespace Sweep

open Loop

variable {α : Type}

/-- The slots, the place that each of them had before the loop, and the places that the loop has
examined. -/
structure Pass (α : Type) where
  slots : List α
  origins : List Nat
  examined : List Nat

def Pass.start (slots : List α) : Pass α := ⟨slots, List.range slots.length, []⟩

def visit (gone : α → Prop) [DecidablePred gone] (treat : α → α) (y : Nat) (p : Pass α) :
    Pass α :=
  match p.slots[y]? with
  | none => p
  | some a =>
    if gone a then
      ⟨p.slots.eraseIdx y, p.origins.eraseIdx y, p.examined ++ p.origins[y]?.toList⟩
    else ⟨p.slots.set y (treat a), p.origins, p.examined ++ p.origins[y]?.toList⟩

def sweep (gone : α → Prop) [DecidablePred gone] (treat : α → α) (slots : List α) : Pass α :=
  forRange slots.length (visit gone treat) (.start slots)

/-- The slots that stay are in their order, each has been examined once and treated, and none is
left that should be gone. -/
structure Exact (gone : α → Prop) [DecidablePred gone] (treat : α → α) (slots : List α)
    (p : Pass α) : Prop where
  kept : p.origins = (List.range slots.length).filter fun i => ∀ a ∈ slots[i]?, ¬ gone a
  contents : p.slots = p.origins.filterMap fun i => slots[i]?.map treat
  examined : ∀ i ∈ p.origins, p.examined.count i = 1
  gone : ∀ a ∈ p.slots, ¬ gone a

variable {gone : α → Prop} [DecidablePred gone] {treat : α → α} {slots : List α}

theorem visit_gone {p : Pass α} {y : Nat} {a : α} (ha : p.slots[y]? = some a) (hgone : gone a) :
    visit gone treat y p =
      ⟨p.slots.eraseIdx y, p.origins.eraseIdx y, p.examined ++ p.origins[y]?.toList⟩ := by
  rw [visit, ha]
  exact if_pos hgone

theorem visit_kept {p : Pass α} {y : Nat} {a : α} (ha : p.slots[y]? = some a)
    (hgone : ¬ gone a) : visit gone treat y p =
      ⟨p.slots.set y (treat a), p.origins, p.examined ++ p.origins[y]?.toList⟩ := by
  rw [visit, ha]
  exact if_neg hgone

/-- The slots from the index on are as they were. -/
theorem kept_getElem? {y : Nat} (hy : y ≤ slots.length) :
    ((slots.take y).map treat ++ slots.drop y)[y]? = slots[y]? := by
  have hlength : ((slots.take y).map treat).length = y := by
    rw [List.length_map, List.length_take_of_le hy]
  rw [List.getElem?_append_right (Nat.le_of_eq hlength), hlength, Nat.sub_self,
    List.getElem?_drop, Nat.add_zero]

/-- As long as nothing is deleted, the slots before the index have been treated. -/
theorem forRange_kept {y : Nat} (hy : y ≤ slots.length)
    (hkept : ∀ i a, i < y → slots[i]? = some a → ¬ gone a) :
    forRange y (visit gone treat) (.start slots) =
      ⟨(slots.take y).map treat ++ slots.drop y, List.range slots.length, List.range y⟩ := by
  induction y with
  | zero => rfl
  | succ y ih =>
    have hlt : y < slots.length := hy
    have hle := Nat.le_of_lt hlt
    have hslot : slots[y]? = some slots[y] := List.getElem?_eq_getElem hlt
    have hlength : ((slots.take y).map treat).length = y := by
      rw [List.length_map, List.length_take_of_le hle]
    rw [forRange_succ, ih hle fun i a hi => hkept i a (Nat.lt_succ_of_lt hi),
      visit_kept ((kept_getElem? hle).trans hslot) (hkept y _ (Nat.lt_succ_self y) hslot),
      List.range_succ,
      List.getElem?_range hlt, Option.toList_some]
    congr 1
    rw [List.set_append_right _ _ (Nat.le_of_eq hlength), hlength, Nat.sub_self,
      List.drop_eq_getElem_cons hlt,
      List.set_cons_zero, List.take_succ_eq_append_getElem hlt, List.map_append, List.append_assoc]
    rfl

/-- The slot behind a deleted one is never examined, and stays. -/
structure Skipped (i : Nat) (p : Pass α) : Prop where
  origin : p.origins[i]? = some (i + 1)
  nodup : p.origins.Nodup
  examined : i + 1 ∉ p.examined

theorem Skipped.visit {p : Pass α} {i y : Nat} (h : Skipped i p) (hy : i < y) :
    Skipped i (visit gone treat y p) := by
  have hexamined : i + 1 ∉ p.examined ++ p.origins[y]?.toList := by
    rw [List.mem_append, not_or]
    refine ⟨h.examined, fun hmem => ?_⟩
    have hsame := h.origin.trans (Option.mem_toList.mp hmem).symm
    have hlt := (List.getElem?_eq_some_iff.mp h.origin).1
    exact Nat.ne_of_lt hy ((List.getElem?_inj hlt h.nodup).mp hsame)
  unfold Sweep.visit
  split
  · exact h
  split
  · refine ⟨?_, h.nodup.sublist (List.eraseIdx_sublist _ _), hexamined⟩
    rw [List.getElem?_eraseIdx, if_pos hy]
    exact h.origin
  · exact ⟨h.origin, h.nodup, hexamined⟩

theorem forRange_skipped {i n : Nat} (hn : i + 1 ≤ n) (p : Pass α)
    (h : Skipped i (forRange (i + 1) (visit gone treat) p)) :
    Skipped i (forRange n (visit gone treat) p) := by
  induction n, hn using Nat.le_induction with
  | base => exact h
  | succ n hn ih =>
    rw [forRange_succ]
    exact ih.visit hn

/-- The first deletion skips the slot behind it. -/
theorem skipped_of_gone {i : Nat} {a : α} (hslot : slots[i]? = some a) (hgone : gone a)
    (hlast : i + 1 < slots.length) (hkept : ∀ j b, j < i → slots[j]? = some b → ¬ gone b) :
    Skipped i (sweep gone treat slots) := by
  have hle : i ≤ slots.length := by omega
  refine forRange_skipped (Nat.le_of_lt hlast) _ ?_
  rw [forRange_succ, forRange_kept hle hkept,
    visit_gone ((kept_getElem? hle).trans hslot) hgone]
  refine ⟨?_, List.nodup_range.sublist (List.eraseIdx_sublist _ _), ?_⟩
  · rw [List.getElem?_eraseIdx, if_neg (Nat.lt_irrefl i), List.getElem?_range hlast]
  · rw [List.getElem?_range (by omega)]
    simp

theorem not_exact_of_skipped {i : Nat} {p : Pass α} (h : Skipped i p) :
    ¬ Exact gone treat slots p := by
  intro hexact
  have hcount := hexact.examined (i + 1) (List.mem_of_getElem? h.origin)
  rw [List.count_eq_zero_of_not_mem h.examined] at hcount
  cases hcount

/-! ## Without a skip -/

theorem filterMap_range {k : Nat} (hk : k ≤ slots.length) :
    ((List.range k).filterMap fun i => slots[i]?.map treat) = (slots.take k).map treat := by
  induction k with
  | zero => rfl
  | succ k ih =>
    have hlt : k < slots.length := hk
    rw [List.range_succ, List.filterMap_append, ih (Nat.le_of_lt hlt),
      List.take_succ_eq_append_getElem hlt, List.map_append]
    simp [List.getElem?_eq_getElem hlt]

/-- All slots but perhaps the last one stay. -/
theorem exact_of_take (htreat : ∀ a, ¬ gone a → ¬ gone (treat a)) {k : Nat}
    (hk : k = slots.length ∨ k + 1 = slots.length ∧ ∃ a ∈ slots[k]?, gone a)
    (hkept : ∀ i a, i < k → slots[i]? = some a → ¬ gone a) :
    Exact gone treat slots
      ⟨(slots.take k).map treat, List.range k, List.range slots.length⟩ := by
  have hle : k ≤ slots.length := by omega
  have hfilter : (List.range k).filter (fun i => ∀ a ∈ slots[i]?, ¬ gone a) = List.range k :=
    List.filter_eq_self.mpr fun i hi => decide_eq_true fun a ha =>
      hkept i a (List.mem_range.mp hi) ha
  refine ⟨?_, (filterMap_range hle).symm, ?_, ?_⟩
  · rcases hk with rfl | ⟨hlast, a, hslot, hgone⟩
    · exact hfilter.symm
    · rw [← hlast, List.range_succ, List.filter_append, hfilter,
        List.filter_cons_of_neg, List.filter_nil, List.append_nil]
      rw [decide_eq_true_eq]
      exact fun h => h a hslot hgone
  · intro i hi
    have hmem := List.mem_range.mpr (Nat.lt_of_lt_of_le (List.mem_range.mp hi) hle)
    exact List.count_eq_one_of_mem List.nodup_range hmem
  · intro a ha
    obtain ⟨b, hb, rfl⟩ := List.mem_map.mp ha
    obtain ⟨i, hi⟩ := List.mem_iff_getElem?.mp hb
    rw [List.getElem?_take] at hi
    split at hi
    next hlt => exact htreat b (hkept i b hlt hi)
    next => cases hi

/-- The last slot is deleted and nothing else. -/
theorem sweep_last {k : Nat} {a : α} (hk : k + 1 = slots.length) (hslot : slots[k]? = some a)
    (hgone : gone a) (hkept : ∀ i b, i < k → slots[i]? = some b → ¬ gone b) :
    sweep gone treat slots =
      ⟨(slots.take k).map treat, List.range k, List.range slots.length⟩ := by
  have hle : k ≤ slots.length := by omega
  have hlength : ((slots.take k).map treat).length = k := by
    rw [List.length_map, List.length_take_of_le hle]
  have hdrop : slots.drop k = [a] := by
    obtain ⟨hlt, heq⟩ := List.getElem?_eq_some_iff.mp hslot
    rw [List.drop_eq_getElem_cons hlt, heq, hk, List.drop_length]
  rw [sweep, ← hk, forRange_succ, forRange_kept hle hkept,
    visit_gone ((kept_getElem? hle).trans hslot) hgone, hdrop, ← hk, List.range_succ]
  congr 1
  · rw [List.eraseIdx_append_of_length_le (Nat.le_of_eq hlength), hlength, Nat.sub_self]
    exact List.append_nil _
  · rw [List.eraseIdx_append_of_length_le (Nat.le_of_eq List.length_range), List.length_range,
      Nat.sub_self]
    exact List.append_nil _
  · rw [List.getElem?_append_right (Nat.le_of_eq List.length_range), List.length_range,
      Nat.sub_self]
    rfl

/-- The pass is exact if and only if no slot but the last one is deleted. -/
theorem sweep_exact_iff (htreat : ∀ a, ¬ gone a → ¬ gone (treat a)) :
    Exact gone treat slots (sweep gone treat slots) ↔
      ∀ i a, slots[i]? = some a → gone a → i + 1 = slots.length := by
  constructor
  · intro h
    by_contra hcond
    have hsome : ∃ i, ∃ a ∈ slots[i]?, gone a ∧ i + 1 < slots.length := by
      push Not at hcond
      obtain ⟨i, a, hslot, hgone, hne⟩ := hcond
      have hlt := (List.getElem?_eq_some_iff.mp hslot).1
      exact ⟨i, a, hslot, hgone, by omega⟩
    -- The first deletion is the one that skips.
    classical
    obtain ⟨a, hslot, hgone, hlast⟩ := Nat.find_spec hsome
    refine not_exact_of_skipped (skipped_of_gone hslot hgone hlast ?_) h
    intro j b hj hb hgone'
    exact Nat.find_min hsome hj ⟨b, hb, hgone', by omega⟩
  · intro hcond
    by_cases hlast : ∃ k : Nat, ∃ a ∈ slots[k]?, gone a
    · obtain ⟨k, a, hslot, hgone⟩ := hlast
      have hk := hcond k a hslot hgone
      have hkept : ∀ i b, i < k → slots[i]? = some b → ¬ gone b := by
        intro i b hi hb hgone'
        have := hcond i b hb hgone'
        omega
      have hle : k ≤ slots.length := by omega
      have hexact := exact_of_take htreat (.inr ⟨hk, a, hslot, hgone⟩) hkept
      rw [sweep_last hk hslot hgone hkept]
      exact hexact
    · push Not at hlast
      have hkept : ∀ i b, i < slots.length → slots[i]? = some b → ¬ gone b :=
        fun i b _ hb => hlast i b hb
      have hexact := exact_of_take htreat (.inl rfl) hkept
      rw [sweep, forRange_kept (Nat.le_refl _) hkept, List.drop_length, List.append_nil]
      exact hexact

end Sweep
