import Mathlib.Algebra.Order.BigOperators.Group.List
import Mathlib.Algebra.Order.Ring.Nat

/-!
# Texts of separated fields

A text is the sequence of its fields with a separator between them. Dropping the last
character of fields that each end in the separator leaves such a text. How many
fields a text has and how long they are together follows from its length and
the separators in it.
-/

namespace Fields

variable {α : Type}

/-- Fields that each end in the separator, without the last separator. -/
theorem dropLast_flatMap (a : α) {ls : List (List α)} :
    (ls.flatMap fun l => l ++ [a]).dropLast = [a].intercalate ls := by
  induction ls with
  | nil => rfl
  | cons l ls ih =>
    cases ls with
    | nil => simp
    | cons l' ls =>
      have hne : ((l' :: ls).flatMap fun l => l ++ [a]) ≠ [] := by simp
      rw [List.flatMap_cons, List.dropLast_append_of_ne_nil hne, ih, List.intercalate_cons_cons]

theorem flatMap_concat {β : Type} {f : β → List α} {a : α} {l : List β} (hl : l ≠ [])
    (hf : ∀ x ∈ l, ∃ t, f x = t ++ [a]) : ∃ t, l.flatMap f = t ++ [a] := by
  obtain ⟨init, x, rfl⟩ := (List.eq_nil_or_concat l).resolve_left hl
  obtain ⟨t, ht⟩ := hf x (by simp)
  exact ⟨init.flatMap f ++ t, by simp [ht]⟩

variable [DecidableEq α]

theorem length_splitOn (a : α) (l : List α) : (l.splitOn a).length = l.count a + 1 := by
  induction l with
  | nil => rfl
  | cons x l ih =>
    rw [List.splitOn_cons_eq_if_modifyHead]
    by_cases hx : x = a
    · simp [hx, ih]
    · simp [hx, ih]

theorem sum_length_splitOn (a : α) (l : List α) :
    ((l.splitOn a).map List.length).sum + l.count a = l.length := by
  induction l with
  | nil => rfl
  | cons x l ih =>
    rw [List.splitOn_cons_eq_if_modifyHead]
    by_cases hx : x = a
    · simp [hx]
      omega
    · obtain ⟨field, fields, hsplit⟩ := List.exists_cons_of_ne_nil (List.splitOn_ne_nil a l)
      rw [hsplit] at ih
      simp [hx, hsplit] at ih ⊢
      omega

theorem sum_filter {β : Type} (p : β → Bool) (f : β → Nat) (l : List β) :
    ((l.filter p).map f).sum = (l.map fun x => if p x then f x else 0).sum := by
  induction l with
  | nil => rfl
  | cons x l ih =>
    by_cases hx : p x = true
    · simp [hx, ih]
    · simp [hx, ih]

/-- Terms in order with no less a sum are no less. -/
theorem le_of_sum_le {β : Type} {f g : β → Nat} {l : List β} (hle : ∀ x ∈ l, f x ≤ g x)
    (hsum : (l.map g).sum ≤ (l.map f).sum) : ∀ x ∈ l, g x ≤ f x := by
  intro x hx
  by_contra hlt
  have := List.sum_lt_sum f g hle ⟨x, hx, Nat.lt_of_not_le hlt⟩
  omega

end Fields
