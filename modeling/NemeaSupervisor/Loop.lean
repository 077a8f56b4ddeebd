import Mathlib.Logic.Relation
import Mathlib.Data.List.Basic

/-!
# Indexed loops and loops over sibling lists

General rules for the two loop shapes of a C program that walks an array or a
linked list of siblings: an invariant rule and a reachability rule for loops
over an index range, and a projection rule for a fold in which at most one
element of the list concerns the projected part of the state.
-/

namespace Loop

variable {σ α γ : Type}

/-- `for (x = 0; x < n; x++) s = body(x, s)`. -/
def forRange (n : Nat) (body : Nat → σ → σ) (s : σ) : σ :=
  (List.range n).foldl (fun s x => body x s) s

theorem forRange_succ (n : Nat) (body : Nat → σ → σ) (s : σ) :
    forRange (n + 1) body s = body n (forRange n body s) := by
  simp [forRange, List.range_succ]

/-- An invariant indexed by the number of completed iterations. -/
theorem forRange_invariant {n : Nat} {body : Nat → σ → σ} {s : σ} (I : Nat → σ → Prop)
    (h0 : I 0 s) (hstep : ∀ x t, x < n → I x t → I (x + 1) (body x t)) :
    I n (forRange n body s) := by
  induction n with
  | zero => exact h0
  | succ n ih =>
    rw [forRange_succ]
    exact hstep n _ (Nat.lt_succ_self n) (ih fun x t hx => hstep x t (by omega))

/-- A projection that every iteration respects. -/
theorem forRange_map {τ : Type} {body : Nat → σ → σ} {body' : Nat → τ → τ} (π : σ → τ)
    (hstep : ∀ x s, π (body x s) = body' x (π s)) (n : Nat) (s : σ) :
    π (forRange n body s) = forRange n body' (π s) := by
  induction n with
  | zero => rfl
  | succ n ih => rw [forRange_succ, forRange_succ, hstep, ih]

/-- A loop whose every iteration is a chain of `R` steps is one; the invariant
may supply the guards of those steps. -/
theorem forRange_reaches {n : Nat} {body : Nat → σ → σ} {s : σ} {R : σ → σ → Prop}
    (I : Nat → σ → Prop) (h0 : I 0 s)
    (hstep : ∀ x t, x < n → I x t →
      Relation.ReflTransGen R t (body x t) ∧ I (x + 1) (body x t)) :
    Relation.ReflTransGen R s (forRange n body s) ∧ I n (forRange n body s) := by
  refine forRange_invariant (fun x t => Relation.ReflTransGen R s t ∧ I x t) ⟨.refl, h0⟩ ?_
  intro x t hx ⟨hr, hi⟩
  obtain ⟨hb, hi'⟩ := hstep x t hx hi
  exact ⟨hr.trans hb, hi'⟩

/-- Whatever every step of a chain preserves, the chain preserves. -/
theorem reaches_invariant {R : σ → σ → Prop} {I : σ → Prop} (hstep : ∀ s t, I s → R s t → I t)
    {s t : σ} (hr : Relation.ReflTransGen R s t) (h : I s) : I t := by
  induction hr with
  | refl => exact h
  | tail _ hbc ih => exact hstep _ _ ih hbc

/-- The elements for which `p` fails leave the projected state alone. -/
theorem foldl_unaffected {f : σ → α → σ} {p : α → Bool} {π : σ → γ}
    (hstep : ∀ s a, p a = false → π (f s a) = π s) (l : List α) (s : σ)
    (hl : l.countP p = 0) : π (l.foldl f s) = π s := by
  induction l generalizing s with
  | nil => rfl
  | cons a l ih =>
    have ha : p a = false := by
      cases hp : p a <;> simp_all
    rw [List.countP_cons_of_neg (by simp [ha])] at hl
    rw [List.foldl_cons, ih _ hl, hstep s a ha]

/-- When at most one element concerns the projected state, the fold applies
exactly that element's update. -/
theorem foldl_unique {f : σ → α → σ} {p : α → Bool} {π : σ → γ} {g : α → γ → γ}
    (hother : ∀ s a, p a = false → π (f s a) = π s)
    (hself : ∀ s a, p a = true → π (f s a) = g a (π s)) (l : List α) (s : σ)
    (hl : l.countP p ≤ 1) :
    π (l.foldl f s) = match l.find? p with
      | some a => g a (π s)
      | none => π s := by
  induction l generalizing s with
  | nil => rfl
  | cons a l ih =>
    cases ha : p a with
    | true =>
      have hz : l.countP p = 0 := by
        rw [List.countP_cons_of_pos ha] at hl
        omega
      rw [List.foldl_cons, foldl_unaffected hother l _ hz, hself s a ha, List.find?_cons_of_pos ha]
    | false =>
      rw [List.countP_cons_of_neg (by simp [ha])] at hl
      rw [List.foldl_cons, ih _ hl, hother s a ha, List.find?_cons_of_neg (by simp [ha])]

/-- When at most one element concerns the projected state, the fold meets it in a
state with the initial projection and keeps the projection it leaves. -/
theorem foldl_single {f : σ → α → σ} {p : α → Bool} {π : σ → γ}
    (hother : ∀ s a, p a = false → π (f s a) = π s) (l : List α) (s : σ)
    (hl : l.countP p ≤ 1) {a : α} (ha : l.find? p = some a) :
    ∃ s', π s' = π s ∧ π (l.foldl f s) = π (f s' a) := by
  induction l generalizing s with
  | nil => simp at ha
  | cons b l ih =>
    cases hb : p b with
    | true =>
      have hz : l.countP p = 0 := by
        rw [List.countP_cons_of_pos hb] at hl
        omega
      rw [List.find?_cons_of_pos hb, Option.some.injEq] at ha
      refine ⟨s, rfl, ?_⟩
      rw [List.foldl_cons, foldl_unaffected hother l _ hz, ha]
    | false =>
      rw [List.countP_cons_of_neg (by simp [hb])] at hl
      rw [List.find?_cons_of_neg (by simp [hb])] at ha
      obtain ⟨s', hs', hfold⟩ := ih (f s b) hl ha
      exact ⟨s', hs'.trans (hother s b hb), hfold⟩

/-- A fold keeps what every element leaves alone. -/
theorem foldl_const {f : σ → α → σ} {π : σ → γ} (h : ∀ s a, π (f s a) = π s) (l : List α) (s : σ) :
    π (l.foldl f s) = π s := by
  induction l generalizing s with
  | nil => rfl
  | cons a l ih => rw [List.foldl_cons, ih, h]

/-- What a fold emits on its way, oldest first. -/
def trace {β : Type} (f : σ → α → σ) (emit : σ → α → List β) : σ → List α → List β
  | _, [] => []
  | s, a :: l => emit s a ++ trace f emit (f s a) l

theorem trace_append {β : Type} {f : σ → α → σ} {emit : σ → α → List β} (s : σ) (l l' : List α) :
    trace f emit s (l ++ l') = trace f emit s l ++ trace f emit (l.foldl f s) l' := by
  induction l generalizing s with
  | nil => rfl
  | cons a l ih => simp only [List.cons_append, trace, List.foldl_cons, ih, List.append_assoc]

/-- What is emitted wherever an invariant holds meets what the invariant gives. -/
theorem trace_forall {β : Type} {f : σ → α → σ} {emit : σ → α → List β} {I : σ → Prop}
    {P : β → Prop} (hstep : ∀ s a, I s → I (f s a)) (hemit : ∀ s a, I s → ∀ b ∈ emit s a, P b)
    {s : σ} (h : I s) (l : List α) : ∀ b ∈ trace f emit s l, P b := by
  induction l generalizing s with
  | nil => simp [trace]
  | cons a l ih =>
    intro b hb
    rcases List.mem_append.mp hb with hb | hb
    · exact hemit s a h b hb
    · exact ih (hstep s a h) b hb

end Loop
