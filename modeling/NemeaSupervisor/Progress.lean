import NemeaSupervisor.Run

/-!
# Progress in a bounded number of rounds

Some actions of a run are rounds. When a round takes the system from one stage to
the next and no other action takes it back, a run has come as many stages further as
it has rounds. A special case is a rank that every round lowers.
-/

namespace Run

variable {σ α : Type} {step : σ → α → σ} {C : σ → α → Prop} {round : α → Bool}

theorem run_append (s : σ) (as bs : List α) : run step s (as ++ bs) = run step (run step s as) bs :=
  List.foldl_append

theorem along_concat {s : σ} {as : List α} {a : α} (h : Along step C s as)
    (ha : C (run step s as) a) : Along step C s (as ++ [a]) := by
  induction as generalizing s with
  | nil => exact ⟨ha, trivial⟩
  | cons b as ih => exact ⟨h.1, ih h.2 ha⟩

/-- A run passes a stage with each of its rounds. -/
theorem stage_of_rounds {Stage : Nat → σ → Prop}
    (hkeep : ∀ n s a, Stage n s → C s a → round a = false → Stage n (step s a))
    (hround : ∀ n s a, Stage n s → C s a → round a = true → Stage (n + 1) (step s a))
    {s : σ} {as : List α} {n : Nat} (h0 : Stage n s) (h : Along step C s as) :
    Stage (n + as.countP round) (run step s as) := by
  induction as generalizing s n with
  | nil => exact h0
  | cons a as ih =>
    cases ha : round a with
    | false =>
      have := ih (hkeep n s a h0 h.1 ha) h.2
      rwa [List.countP_cons_of_neg (by simp [ha])]
    | true =>
      have := ih (hround n s a h0 h.1 ha) h.2
      rwa [List.countP_cons_of_pos ha, Nat.add_comm _ 1, ← Nat.add_assoc]

/-- A rank that every round lowers until it is zero. -/
theorem rank_of_rounds {I : σ → Prop} {rank : σ → Nat}
    (hkeep : ∀ s a, I s → C s a → I (step s a) ∧ rank (step s a) ≤ rank s)
    (hround : ∀ s a, I s → C s a → round a = true → rank s ≠ 0 → rank (step s a) < rank s)
    {s : σ} {as : List α} (h0 : I s) (h : Along step C s as) (henough : rank s ≤ as.countP round) :
    I (run step s as) ∧ rank (run step s as) = 0 := by
  have := @stage_of_rounds σ α step C round (fun n t => I t ∧ rank t ≤ rank s - n)
    (fun n t a ⟨hi, hr⟩ hc _ => ⟨(hkeep t a hi hc).1, Nat.le_trans (hkeep t a hi hc).2 hr⟩)
    (fun n t a ⟨hi, hr⟩ hc ha => by
      refine ⟨(hkeep t a hi hc).1, ?_⟩
      have hle := (hkeep t a hi hc).2
      by_cases hz : rank t = 0
      · omega
      · have := hround t a hi hc ha hz
        omega)
    s as 0 ⟨h0, by omega⟩ h
  exact ⟨this.1, by omega⟩

end Run
