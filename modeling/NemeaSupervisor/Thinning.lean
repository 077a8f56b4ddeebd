import NemeaSupervisor.Sweep

/-!
# What a deleting loop leaves

The slots after the loop are a function of the list: behind an element that is
deleted the next one is passed over. So at most half of what should be gone is
left, and nothing that stays changes its place among the others.
-/

namespace Sweep

open Loop

variable {α β : Type} {gone : α → Prop} [DecidablePred gone] {treat : α → α}

def thin (gone : α → Prop) [DecidablePred gone] (treat : α → α) : List α → List α
  | [] => []
  | [a] => if gone a then [] else [treat a]
  | a :: b :: l => if gone a then b :: thin gone treat l else treat a :: thin gone treat (b :: l)

/-- Visits past the slots change nothing. -/
theorem visits_past {p : Pass α} {s : Nat} (hs : p.slots.length ≤ s) (k : Nat) :
    (List.range' s k).foldl (fun p y => visit gone treat y p) p = p := by
  induction k generalizing s with
  | zero => rfl
  | succ k ih =>
    have hnone : visit gone treat s p = p := by
      rw [visit, List.getElem?_eq_none hs]
    rw [List.range'_succ, List.foldl_cons, hnone]
    exact ih (by omega)

theorem erase_first {p : Pass α} {done l : List α} {a : α} (hp : p.slots = done ++ a :: l) :
    p.slots.eraseIdx done.length = done ++ l := by
  rw [hp, List.eraseIdx_append_of_length_le (Nat.le_refl _), Nat.sub_self, List.eraseIdx_cons_zero]

theorem first_slot {p : Pass α} {done l : List α} {a : α} (hp : p.slots = done ++ a :: l) :
    p.slots[done.length]? = some a := by
  simp [hp]

/-- The visits from an index on leave the slots before it alone. -/
theorem visits_slots {l done : List α} {p : Pass α} {k : Nat} (hk : l.length ≤ k)
    (hp : p.slots = done ++ l) :
    ((List.range' done.length k).foldl (fun p y => visit gone treat y p) p).slots =
      done ++ thin gone treat l := by
  induction l using thin.induct gone generalizing done p k with
  | case1 => rw [visits_past (by simp [hp]), hp, thin]
  | case2 a hgone =>
    obtain ⟨k, rfl⟩ : ∃ k', k = k' + 1 := ⟨k - 1, by simp at hk; omega⟩
    rw [List.range'_succ, List.foldl_cons, visit_gone (first_slot hp) hgone,
      visits_past (by simp [erase_first hp]), erase_first hp, thin, if_pos hgone]
  | case3 a hgone =>
    obtain ⟨k, rfl⟩ : ∃ k', k = k' + 1 := ⟨k - 1, by simp at hk; omega⟩
    rw [List.range'_succ, List.foldl_cons, visit_kept (first_slot hp) hgone,
      visits_past (by simp [hp]), thin, if_neg hgone]
    simp [hp]
  | case4 a b l hgone ih =>
    obtain ⟨k, rfl⟩ : ∃ k', k = k' + 1 := ⟨k - 1, by simp at hk; omega⟩
    have hrest : p.slots.eraseIdx done.length = done ++ [b] ++ l := by simp [erase_first hp]
    rw [List.range'_succ, List.foldl_cons, visit_gone (first_slot hp) hgone, thin, if_pos hgone]
    have := @ih (done ++ [b]) ⟨p.slots.eraseIdx done.length, p.origins.eraseIdx done.length,
      p.examined ++ p.origins[done.length]?.toList⟩ k (by simp at hk; omega) hrest
    simpa using this
  | case5 a b l hgone ih =>
    obtain ⟨k, rfl⟩ : ∃ k', k = k' + 1 := ⟨k - 1, by simp at hk; omega⟩
    have hrest : p.slots.set done.length (treat a) = done ++ [treat a] ++ b :: l := by simp [hp]
    rw [List.range'_succ, List.foldl_cons, visit_kept (first_slot hp) hgone, thin, if_neg hgone]
    have := @ih (done ++ [treat a]) ⟨p.slots.set done.length (treat a), p.origins,
      p.examined ++ p.origins[done.length]?.toList⟩ k (by simpa using hk) hrest
    simpa using this

theorem sweep_slots (slots : List α) :
    (sweep gone treat slots).slots = thin gone treat slots := by
  have := @visits_slots _ gone _ treat slots [] (.start slots) slots.length (Nat.le_refl _) rfl
  rwa [List.length_nil, ← List.range_eq_range', List.nil_append] at this

/-- At most half of what should be gone is left. -/
theorem countP_thin_le (htreat : ∀ a, ¬ gone a → ¬ gone (treat a)) (l : List α) :
    2 * (thin gone treat l).countP (fun a => decide (gone a)) ≤
      l.countP (fun a => decide (gone a)) := by
  induction l using thin.induct gone with
  | case1 => simp [thin]
  | case2 a hgone => simp [thin, hgone]
  | case3 a hgone => simp [thin, hgone, htreat a hgone]
  | case4 a b l hgone ih =>
    simp only [thin, List.countP_cons, hgone, decide_true, if_true]
    split <;> omega
  | case5 a b l hgone ih =>
    rw [thin, if_neg hgone, List.countP_cons_of_neg (by simpa using htreat a hgone),
      List.countP_cons_of_neg (by simpa using hgone)]
    exact ih

theorem filter_eraseIdx {l : List α} {i : Nat} {a : α} {stays : α → Bool} (ha : l[i]? = some a)
    (hgone : stays a = false) : (l.eraseIdx i).filter stays = l.filter stays := by
  obtain ⟨hlt, rfl⟩ := List.getElem?_eq_some_iff.mp ha
  conv_rhs => rw [← List.take_append_drop i l, List.drop_eq_getElem_cons hlt]
  rw [List.eraseIdx_eq_take_drop_succ, List.filter_append, List.filter_append,
    List.filter_cons_of_neg (by simp [hgone])]

theorem thin_eq_map {l : List α} (h : ∀ a ∈ l, ¬ gone a) : thin gone treat l = l.map treat := by
  induction l using thin.induct gone with
  | case1 => rfl
  | case2 a hgone => exact absurd hgone (h a (by simp))
  | case3 a hgone => simp [thin, hgone]
  | case4 a b l hgone ih => exact absurd hgone (h a (by simp))
  | case5 a b l hgone ih =>
    rw [thin, if_neg hgone, ih fun c hc => h c (List.mem_cons_of_mem a hc)]
    rfl

end Sweep
