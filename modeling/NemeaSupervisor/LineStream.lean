import Mathlib.Data.List.Basic

/-!
# Streams of terminated lines

The complete lines of a stream are the stretches that end in the terminator; what
follows the last terminator is not a line yet. The lines of a stream
that begins with whole lines are these lines and those of the rest, and each
line has a place in the stream: the number of symbols before it.
-/

namespace LineStream

variable {α β : Type} {terminator : α}

/-- Lines, each with its terminator. -/
def terminated (terminator : α) (ls : List (List α)) : List α :=
  ls.flatMap fun l => l ++ [terminator]

/-- What each line is read as, with the place of its first symbol. -/
def placed (read : List α → β) : Nat → List (List α) → List (Nat × β)
  | _, [] => []
  | place, l :: ls => (place, read l) :: placed read (place + l.length + 1) ls

@[simp] theorem terminated_nil : terminated terminator [] = [] := rfl

@[simp] theorem terminated_concat (ls : List (List α)) (l : List α) :
    terminated terminator (ls ++ [l]) = terminated terminator ls ++ (l ++ [terminator]) := by
  simp [terminated]

theorem terminated_cons (l : List α) (ls : List (List α)) :
    terminated terminator (l :: ls) = l ++ terminator :: terminated terminator ls := by
  simp [terminated]

theorem placed_append (read : List α → β) (place : Nat) (ls ls' : List (List α)) :
    placed read place (ls ++ ls') =
      placed read place ls ++ placed read (place + (terminated terminator ls).length) ls' := by
  induction ls generalizing place with
  | nil => rfl
  | cons l ls ih =>
    rw [List.cons_append, placed, placed, ih, terminated_cons, List.cons_append,
      List.length_append, List.length_cons]
    congr 3
    omega

/-- The first terminator ends the first line. -/
theorem terminated_unique {l l' rest rest' : List α} (hl : terminator ∉ l) (hl' : terminator ∉ l')
    (h : l ++ terminator :: rest = l' ++ terminator :: rest') : l = l' ∧ rest = rest' := by
  induction l generalizing l' with
  | nil =>
    cases l' with
    | nil => exact ⟨rfl, by simpa using h⟩
    | cons c l' => exact absurd ((List.cons.inj h).1 ▸ List.mem_cons_self) hl'
  | cons c l ih =>
    cases l' with
    | nil => exact absurd ((List.cons.inj h).1 ▸ List.mem_cons_self) hl
    | cons c' l' =>
      obtain ⟨rfl, htail⟩ := List.cons.inj h
      obtain ⟨rfl, hrest⟩ := ih (fun hmem => hl (List.mem_cons_of_mem _ hmem))
        (fun hmem => hl' (List.mem_cons_of_mem _ hmem)) htail
      exact ⟨rfl, hrest⟩

/-- Whole lines at the start of a stream of lines are the first of them. -/
theorem lines_prefix {ls texts : List (List α)} {rest : List α} (hls : ∀ l ∈ ls, terminator ∉ l)
    (htexts : ∀ t ∈ texts, terminator ∉ t)
    (h : terminated terminator ls ++ rest = terminated terminator texts) :
    ∃ more, texts = ls ++ more ∧ rest = terminated terminator more := by
  induction ls generalizing texts with
  | nil => exact ⟨texts, rfl, h⟩
  | cons l ls ih =>
    cases texts with
    | nil => simp [terminated_cons] at h
    | cons t texts =>
      rw [terminated_cons, terminated_cons, List.append_assoc, List.cons_append] at h
      obtain ⟨rfl, hrest⟩ := terminated_unique (hls l (by simp)) (htexts t (by simp)) h
      obtain ⟨more, rfl, hmore⟩ := ih (fun l' hl' => hls l' (List.mem_cons_of_mem _ hl'))
        (fun t' ht' => htexts t' (List.mem_cons_of_mem _ ht')) hrest
      exact ⟨more, rfl, hmore⟩

/-- What is read up to a symbol is a line, or the start of one. -/
theorem start_of_line {texts : List (List α)} {b rest : List α} {c : α} (hb : terminator ∉ b)
    (h : b ++ c :: rest = terminated terminator texts) :
    ∃ t ∈ texts, b <+: t ∧ (c ≠ terminator → b ++ [c] <+: t) := by
  cases texts with
  | nil => simp at h
  | cons t texts =>
    refine ⟨t, by simp, ?_⟩
    rw [terminated_cons] at h
    rcases List.append_eq_append_iff.mp h with ⟨more, hmore, hrest⟩ | ⟨more, hmore, hrest⟩
    · rw [hmore]
      refine ⟨List.prefix_append .., fun hc => ?_⟩
      cases more with
      | nil => exact absurd (List.cons.inj hrest).1 hc
      | cons c' more =>
        obtain ⟨rfl, -⟩ := List.cons.inj hrest
        exact ⟨more, by simp⟩
    · cases more with
      | nil =>
        rw [List.append_nil] at hmore
        rw [hmore]
        exact ⟨List.prefix_refl _, fun hc => absurd (List.cons.inj hrest).1.symm hc⟩
      | cons c' more =>
        refine absurd ?_ hb
        rw [hmore, (List.cons.inj hrest).1]
        simp

variable [DecidableEq α]

/-- The lines that have ended. -/
def completeLines (terminator : α) (s : List α) : List (List α) := (s.splitOn terminator).dropLast

theorem completeLines_unterminated {s : List α} (h : terminator ∉ s) :
    completeLines terminator s = [] := by
  simp [completeLines, List.splitOn_eq_singleton h]

theorem completeLines_cons {l : List α} (h : terminator ∉ l) (s : List α) :
    completeLines terminator (l ++ terminator :: s) = l :: completeLines terminator s := by
  rw [completeLines, List.splitOn_append_cons_self_of_not_mem h,
    List.dropLast_cons_of_ne_nil (List.splitOn_ne_nil terminator s), completeLines]

theorem completeLines_terminated {ls : List (List α)} (h : ∀ l ∈ ls, terminator ∉ l) (s : List α) :
    completeLines terminator (terminated terminator ls ++ s) =
      ls ++ completeLines terminator s := by
  induction ls with
  | nil => rfl
  | cons l ls ih =>
    have hl : terminator ∉ l := h l (by simp)
    have hls := ih fun l' hl' => h l' (List.mem_cons_of_mem l hl')
    rw [terminated_cons, List.append_assoc, List.cons_append, completeLines_cons hl, hls,
      List.cons_append]

end LineStream
