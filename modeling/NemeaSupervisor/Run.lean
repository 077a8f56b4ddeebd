import Mathlib.Data.List.Basic

/-!
# Runs of a transition function

A system is a step function on states and actions; a run folds it over a list
of actions. The rules reduce a property of every state of a run to what one
step preserves, also when only runs whose steps all meet a condition count.
-/

namespace Run

variable {σ α : Type} (step : σ → α → σ)

/-- The state after the actions, oldest first. -/
def run (s : σ) (as : List α) : σ := as.foldl step s

@[simp] theorem run_nil (s : σ) : run step s [] = s := rfl
@[simp] theorem run_cons (s : σ) (a : α) (as : List α) :
    run step s (a :: as) = run step (step s a) as := rfl

theorem run_concat (s : σ) (as : List α) (a : α) :
    run step s (as ++ [a]) = step (run step s as) a := by
  rw [run, List.foldl_append]
  rfl

/-- Every action of the run is taken in a state in which it meets `C`. -/
def Along (C : σ → α → Prop) : σ → List α → Prop
  | _, [] => True
  | s, a :: as => C s a ∧ Along C (step s a) as

instance decidableAlong (C : σ → α → Prop) [∀ s a, Decidable (C s a)] :
    (s : σ) → (as : List α) → Decidable (Along step C s as)
  | _, [] => .isTrue trivial
  | s, a :: as =>
    have := decidableAlong C (step s a) as
    inferInstanceAs (Decidable (C s a ∧ Along step C (step s a) as))

/-- A condition on the actions alone. -/
theorem along_of_forall {C : α → Prop} {as : List α} (h : ∀ a ∈ as, C a) (s : σ) :
    Along step (fun _ a => C a) s as := by
  induction as generalizing s with
  | nil => trivial
  | cons a as ih => exact ⟨h a (by simp), ih (fun b hb => h b (List.mem_cons_of_mem a hb)) _⟩

variable {step}

theorem along_true (s : σ) (as : List α) : Along step (fun _ _ => True) s as := by
  induction as generalizing s with
  | nil => trivial
  | cons a as ih => exact ⟨trivial, ih _⟩

theorem along_mono {C D : σ → α → Prop} (h : ∀ s a, C s a → D s a) {s : σ} {as : List α}
    (has : Along step C s as) : Along step D s as := by
  induction as generalizing s with
  | nil => trivial
  | cons a as ih => exact ⟨h s a has.1, ih has.2⟩

theorem along_append {C : σ → α → Prop} {s : σ} {as bs : List α}
    (h : Along step C s (as ++ bs)) : Along step C s as ∧ Along step C (run step s as) bs := by
  induction as generalizing s with
  | nil => exact ⟨trivial, h⟩
  | cons a as ih =>
    obtain ⟨has, hbs⟩ := ih h.2
    exact ⟨⟨h.1, has⟩, hbs⟩

/-- What every step that meets the condition preserves, every such run preserves. -/
theorem along_invariant {C : σ → α → Prop} {I : σ → Prop}
    (hstep : ∀ s a, I s → C s a → I (step s a)) {s : σ} {as : List α}
    (h0 : I s) (h : Along step C s as) : I (run step s as) := by
  induction as generalizing s with
  | nil => exact h0
  | cons a as ih => exact ih (hstep s a h0 h.1) h.2

/-- What every step preserves, every run preserves. -/
theorem run_invariant {I : σ → Prop} (hstep : ∀ s a, I s → I (step s a)) {s : σ} (h0 : I s)
    (as : List α) : I (run step s as) :=
  along_invariant (C := fun _ _ => True) (fun s a hi _ => hstep s a hi) h0 (along_true s as)

/-- A state that no action changes stays. -/
theorem run_fixed {s : σ} (h : ∀ a, step s a = s) (as : List α) : run step s as = s :=
  run_invariant (I := fun t => t = s) (fun t a ht => by rw [ht, h a]) rfl as

end Run
