import Mathlib.Algebra.BigOperators.Group.Finset.Basic
import Mathlib.Algebra.BigOperators.Group.Finset.Piecewise
import Mathlib.Data.Fintype.BigOperators
import Mathlib.Data.List.Basic

/-!
# Pools of threads

The threads of a program are a list, and a step replaces one of them. An assertion
about every thread survives a step when the thread establishes its own and the others'
are stable under what the step does. What is unique among the threads is counted:
a step moves a count by what it changes about the one thread.
-/

namespace Pool

variable {τ : Type} {threads : List τ} {i : Nat} {t t' : τ}

/-- The thread that took the step and the others are treated apart. -/
theorem forall_set {P : τ → Prop} (hown : P t')
    (hother : ∀ j u, j ≠ i → threads[j]? = some u → P u) : ∀ u ∈ threads.set i t', P u := by
  intro u hu
  obtain ⟨j, hj⟩ := List.mem_iff_getElem?.mp hu
  rw [List.getElem?_set] at hj
  split_ifs at hj with hij hlt
  · cases hj
    exact hown
  · exact hother j u (Ne.symm hij) hj

theorem mem_set_of_ne {j : Nat} {u : τ} (hj : threads[j]? = some u) (hne : j ≠ i) :
    u ∈ threads.set i t' :=
  List.mem_iff_getElem?.mpr ⟨j, by rw [List.getElem?_set_ne (Ne.symm hne), hj]⟩

theorem mem_set_self (hi : threads[i]? = some t) : t' ∈ threads.set i t' := by
  obtain ⟨hlt, -⟩ := List.getElem?_eq_some_iff.mp hi
  exact List.mem_iff_getElem?.mpr ⟨i, by rw [List.getElem?_set_self hlt]⟩

theorem countP_set (p : τ → Bool) (t' : τ) (hi : threads[i]? = some t) :
    (threads.set i t').countP p + (p t).toNat = threads.countP p + (p t').toNat := by
  induction threads generalizing i with
  | nil => simp at hi
  | cons u threads ih =>
    cases i with
    | zero =>
      simp only [List.getElem?_cons_zero, Option.some.injEq] at hi
      subst hi
      simp only [List.set_cons_zero, List.countP_cons]
      cases p u <;> cases p t' <;> simp
    | succ i =>
      have := ih (by simpa using hi)
      simp only [List.set_cons_succ, List.countP_cons]
      omega

/-- A count that the step does not change. -/
theorem countP_set_same {p : τ → Bool} (hi : threads[i]? = some t) (hp : p t' = p t) :
    (threads.set i t').countP p = threads.countP p := by
  have := countP_set p t' hi
  rw [hp] at this
  omega

theorem countP_pos {p : τ → Bool} (hi : threads[i]? = some t) (hp : p t = true) :
    0 < threads.countP p :=
  List.countP_pos_iff.mpr ⟨t, List.mem_of_getElem? hi, hp⟩

/-- Two threads counted together make two. -/
theorem two_le_countP {p : τ → Bool} {j : Nat} {u : τ} (hi : threads[i]? = some t)
    (hj : threads[j]? = some u) (hne : i ≠ j) (ht : p t = true) (hu : p u = true) :
    2 ≤ threads.countP p := by
  induction threads generalizing i j with
  | nil => simp at hi
  | cons v threads ih =>
    cases i with
    | zero =>
      cases j with
      | zero => exact absurd rfl hne
      | succ j =>
        simp only [List.getElem?_cons_zero, Option.some.injEq] at hi
        subst hi
        have hpos : 0 < threads.countP p := countP_pos (i := j) (by simpa using hj) hu
        simp only [List.countP_cons, ht, if_true]
        omega
    | succ i =>
      cases j with
      | zero =>
        simp only [List.getElem?_cons_zero, Option.some.injEq] at hj
        subst hj
        have hpos : 0 < threads.countP p := countP_pos (i := i) (by simpa using hi) ht
        simp only [List.countP_cons, hu, if_true]
        omega
      | succ j =>
        have := ih (i := i) (j := j) (by simpa using hi) (by simpa using hj) (by omega)
        simp only [List.countP_cons]
        omega

theorem index_unique {p : τ → Bool} {j : Nat} {u : τ} (hcount : threads.countP p ≤ 1)
    (hi : threads[i]? = some t) (hj : threads[j]? = some u) (ht : p t = true) (hu : p u = true) :
    i = j := by
  by_contra hne
  have := two_le_countP hi hj hne ht hu
  omega

/-- The threads of all keys together. -/
theorem sum_countP {κ : Type} [Fintype κ] [DecidableEq κ] (p : τ → Bool) (key : τ → κ)
    (threads : List τ) :
    ∑ k : κ, threads.countP (fun t => p t && decide (key t = k)) = threads.countP p := by
  induction threads with
  | nil => simp
  | cons t threads ih =>
    simp only [List.countP_cons, Finset.sum_add_distrib, ih]
    cases p t with
    | false => simp
    | true => simp

end Pool
