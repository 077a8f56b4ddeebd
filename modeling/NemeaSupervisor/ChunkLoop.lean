import Mathlib.Algebra.GroupWithZero.Nat
import Mathlib.Data.List.Induction
import NemeaSupervisor.Run

/-!
# Transfers in chunks

A loop moves `size` elements by calls that each move some of them, ask to be tried
again, or stop the transfer. The calls that may be tried again are limited for the
whole transfer. It succeeds exactly when the chunks come to the whole size before a
stop and within the limit, and every call that does not end it uses up one of the
elements or one of the tries.
-/

namespace ChunkLoop

/-- What one call comes to. -/
inductive Outcome where
  | moved (n : Nat)
  | again
  | stop
  deriving DecidableEq, Repr

/-- The elements moved, the calls to be tried again, and the result once the loop has ended. -/
structure State where
  moved : Nat
  tries : Nat
  result : Option Bool
  deriving DecidableEq, Repr

/-- The test of the loop. -/
def test (size : Nat) (s : State) : State :=
  if s.moved < size then s else { s with result := some true }

def start (size : Nat) : State := test size ⟨0, 0, none⟩

def step (size budget : Nat) (s : State) (o : Outcome) : State :=
  match s.result with
  | some _ => s
  | none =>
    match o with
    | .moved n => test size { s with moved := s.moved + n }
    | .again =>
      if s.tries + 1 > budget then { s with tries := s.tries + 1, result := some false }
      else test size { s with tries := s.tries + 1 }
    | .stop => { s with result := some false }

/-- An ended loop makes no more calls. -/
theorem step_ended {size budget : Nat} {s : State} {result : Bool} (h : s.result = some result)
    (o : Outcome) : step size budget s o = s := by
  simp only [step, h]

theorem run_ended {size budget : Nat} {s : State} {result : Bool} (h : s.result = some result)
    (os : List Outcome) : Run.run (step size budget) s os = s :=
  Run.run_fixed (step_ended h) os

/-- How much one outcome moves. -/
def Outcome.size : Outcome → Nat
  | .moved n => n
  | _ => 0

/-- How much the outcomes move together. -/
def movedBy (os : List Outcome) : Nat := (os.map Outcome.size).sum

theorem test_below {size : Nat} {s : State} (h : s.moved < size) : test size s = s := if_pos h

theorem test_end {size : Nat} {s : State} (h : size ≤ s.moved) :
    test size s = { s with result := some true } :=
  if_neg (Nat.not_lt.mpr h)

theorem test_moved (size : Nat) (s : State) : (test size s).moved = s.moved := by
  rw [test]
  split <;> rfl

/-- A loop that goes on moves what the outcome moves. -/
theorem step_moved {size budget : Nat} {s : State} (h : s.result = none) (o : Outcome) :
    (step size budget s o).moved = s.moved + o.size := by
  cases o with
  | moved n =>
    simp only [step, h]
    exact test_moved size _
  | stop => simp only [step, h, Outcome.size, Nat.add_zero]
  | again =>
    simp only [step, h]
    split
    · rfl
    · exact test_moved size _

/-- The outcomes move everything, without a stop and within the limit. -/
structure Completes (size budget : Nat) (os : List Outcome) : Prop where
  all : movedBy os = size
  unstopped : .stop ∉ os
  tries : os.count .again ≤ budget

/-- A call moves at least one element and no more than are left. -/
def Moves (size : Nat) (s : State) (o : Outcome) : Prop :=
  s.result = none → ∀ n, o = .moved n → 1 ≤ n ∧ s.moved + n ≤ size

/-! ## Lists of outcomes -/

@[simp] theorem movedBy_nil : movedBy [] = 0 := rfl

theorem movedBy_append (os os' : List Outcome) : movedBy (os ++ os') = movedBy os + movedBy os' := by
  rw [movedBy, List.map_append, List.sum_append]
  rfl

theorem movedBy_concat (os : List Outcome) (o : Outcome) :
    movedBy (os ++ [o]) = movedBy os + o.size := by
  rw [movedBy_append]
  simp [movedBy]

theorem movedBy_prefix {before os : List Outcome} (h : before <+: os) :
    movedBy before ≤ movedBy os := by
  obtain ⟨after, rfl⟩ := h
  rw [movedBy_append]
  exact Nat.le_add_right _ _

/-! ## The run -/

variable {size budget : Nat} {os : List Outcome}

/-- What the state knows of the outcomes. -/
inductive Known (size budget : Nat) (os : List Outcome) : State → Prop
  | on {s : State} (hmoved : s.moved = movedBy os) (htries : s.tries = os.count .again)
    (hbelow : movedBy os < size) (hbudget : os.count .again ≤ budget) (hstop : .stop ∉ os)
    (hlength : os.length ≤ movedBy os + os.count .again) (hresult : s.result = none) :
    Known size budget os s
  | done {s : State} {before : List Outcome} (hbefore : before <+: os)
    (hcompletes : Completes size budget before) (hmoved : s.moved = size)
    (hresult : s.result = some true) : Known size budget os s
  | given {s : State} {before : List Outcome} {o : Outcome} (hbefore : before ++ [o] <+: os)
    (hbelow : movedBy before < size) (ho : o = .stop ∨ o = .again ∧ budget ≤ before.count .again)
    (hresult : s.result = some false) : Known size budget os s

theorem known_start : Known size budget [] (start size) := by
  rw [start, test]
  split
  · next hbelow => exact .on rfl rfl hbelow (Nat.zero_le _) List.not_mem_nil (Nat.zero_le _) rfl
  · next hend =>
    have hzero : 0 = size := (Nat.eq_zero_of_not_pos hend).symm
    exact .done List.prefix_rfl ⟨hzero, List.not_mem_nil, Nat.zero_le _⟩ hzero rfl

/-- What one call does to a loop that goes on. -/
theorem Known.step_on {s : State} (h : Known size budget os s) (hresult : s.result = none)
    {o : Outcome} (ho : Moves size s o) :
    Known size budget (os ++ [o]) (step size budget s o) ∧
      ((step size budget s o).result = some true → Completes size budget (os ++ [o])) := by
  cases h with
  | done _ _ _ hdone => exact absurd (hresult.symm.trans hdone) (by simp)
  | given _ _ _ hgiven => exact absurd (hresult.symm.trans hgiven) (by simp)
  | on hmoved htries hbelow hbudget hstop hlength _ =>
    have hsum := movedBy_concat os o
    cases o with
    | stop =>
      simp only [ChunkLoop.step, hresult]
      exact ⟨.given List.prefix_rfl hbelow (.inl rfl) rfl, by simp⟩
    | again =>
      have hcount : (os ++ [Outcome.again]).count .again = os.count .again + 1 := by simp
      have hsame : movedBy (os ++ [Outcome.again]) = movedBy os := hsum
      simp only [ChunkLoop.step, hresult]
      split
      · next hover => exact ⟨.given List.prefix_rfl hbelow (.inr ⟨rfl, by omega⟩) rfl, by simp⟩
      · next hmore =>
        rw [test_below (hmoved ▸ hbelow)]
        refine ⟨.on (hmoved.trans hsame.symm) ?_ (by omega) (by omega) (by simpa using hstop) ?_
          rfl, by simp⟩
        · rw [hcount, htries]
        · rw [List.length_append, hcount, hsame]
          exact Nat.add_le_add_right hlength 1
    | moved n =>
      obtain ⟨hpos, hfits⟩ := ho hresult n rfl
      have hcount : (os ++ [Outcome.moved n]).count .again = os.count .again := by simp
      have hmore : movedBy (os ++ [Outcome.moved n]) = movedBy os + n := hsum
      simp only [ChunkLoop.step, hresult, test]
      split
      · next hleft =>
        refine ⟨.on ?_ (htries.trans hcount.symm) ?_ (by omega) (by simpa using hstop) ?_ rfl,
          by simp⟩
        · rw [hmore, ← hmoved]
        · rw [hmore, ← hmoved]
          exact hleft
        · rw [List.length_append, hcount, hmore, List.length_singleton]
          omega
      · next hend =>
        have hcompletes : Completes size budget (os ++ [.moved n]) :=
          ⟨by omega, by simpa using hstop, by omega⟩
        exact ⟨.done List.prefix_rfl hcompletes (by simp only; omega) rfl, fun _ => hcompletes⟩

theorem Known.step {s : State} (h : Known size budget os s) {o : Outcome} (ho : Moves size s o) :
    Known size budget (os ++ [o]) (step size budget s o) := by
  cases hresult : s.result with
  | none => exact (h.step_on hresult ho).1
  | some result =>
    rw [step_ended hresult]
    cases h with
    | on _ _ _ _ _ _ hon => exact absurd (hresult.symm.trans hon) (by simp)
    | done hbefore hcompletes hmoved hdone =>
      exact .done (hbefore.trans (List.prefix_append _ _)) hcompletes hmoved hdone
    | given hbefore hbelow hlast hgiven =>
      exact .given (hbefore.trans (List.prefix_append _ _)) hbelow hlast hgiven

theorem known_run (h : Run.Along (step size budget) (Moves size) (start size) os) :
    Known size budget os (Run.run (step size budget) (start size) os) := by
  induction os using List.reverseRecOn with
  | nil => exact known_start
  | append_singleton os o ih =>
    obtain ⟨hos, ho⟩ := Run.along_append h
    rw [Run.run_concat]
    exact (ih hos).step ho.1

/-- A loop that has succeeded has moved everything. -/
theorem Known.moved_all {s : State} (h : Known size budget os s) (hresult : s.result = some true) :
    s.moved = size := by
  cases h with
  | done _ _ hmoved _ => exact hmoved
  | on _ _ _ _ _ _ hon => exact absurd (hresult.symm.trans hon) (by simp)
  | given _ _ _ hgiven => exact absurd (hresult.symm.trans hgiven) (by simp)

/-- Prefixes that end before the whole has been moved hold no prefix that moves it. -/
theorem not_completes_of_below {before before' : List Outcome} (hbefore : before' <+: before)
    (hbelow : movedBy before < size) : ¬ Completes size budget before' := fun h =>
  Nat.not_lt.mpr (h.all ▸ movedBy_prefix hbefore) hbelow

/-- An outcome that ends the loop early is in no list that completes the transfer. -/
theorem not_completes_of_last {before before' : List Outcome} {o : Outcome}
    (hbefore : before ++ [o] <+: before')
    (ho : o = .stop ∨ o = .again ∧ budget ≤ before.count .again) :
    ¬ Completes size budget before' := by
  intro h
  rcases ho with rfl | ⟨rfl, hlimit⟩
  · exact h.unstopped (hbefore.subset (by simp))
  · have hcount := hbefore.sublist.count_le Outcome.again
    rw [List.count_append, List.count_singleton_self] at hcount
    have htries := h.tries
    omega

/-- The transfer succeeds if and only if its outcomes come to complete it. -/
theorem run_eq_true_iff (h : Run.Along (step size budget) (Moves size) (start size) os) :
    (Run.run (step size budget) (start size) os).result = some true ↔
      ∃ before, before <+: os ∧ Completes size budget before := by
  cases known_run h with
  | on _ _ hbelow _ _ _ hresult =>
    rw [hresult]
    refine iff_of_false (by simp) ?_
    rintro ⟨before', hbefore', hcompletes⟩
    exact not_completes_of_below hbefore' hbelow hcompletes
  | done hbefore hcompletes _ hresult => exact iff_of_true hresult ⟨_, hbefore, hcompletes⟩
  | given hbefore hbelow ho hresult =>
    rw [hresult]
    refine iff_of_false (by simp) ?_
    rintro ⟨before', hbefore', hcompletes⟩
    rcases List.prefix_or_prefix_of_prefix hbefore hbefore' with hlong | hshort
    · exact not_completes_of_last hlong ho hcompletes
    · rcases List.prefix_concat_iff.mp hshort with rfl | hshort
      · exact not_completes_of_last List.prefix_rfl ho hcompletes
      · exact not_completes_of_below hshort hbelow hcompletes

/-- A call for each element and each try ends the loop. -/
theorem run_ends (h : Run.Along (step size budget) (Moves size) (start size) os)
    (hlength : size + budget ≤ os.length) :
    (Run.run (step size budget) (start size) os).result ≠ none := by
  cases known_run h with
  | on _ _ hbelow hbudget _ hle _ => omega
  | done _ _ _ hresult => simp [hresult]
  | given _ _ _ hresult => simp [hresult]

end ChunkLoop
