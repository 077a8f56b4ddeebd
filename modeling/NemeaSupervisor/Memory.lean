import Mathlib.Data.List.Basic

/-!
# Strings and arrays in allocated memory

A string written piece by piece at a write pointer, and an array of pointers filled
from its start. The list of writes is a record for the statements: a write outside
of the allocated bytes changes the string as if there were room.
-/

namespace Memory

/-- `count` elements are written from position `pos` on, of `size` allocated ones. -/
structure Write where
  pos : Int
  count : Nat
  size : Nat
  deriving DecidableEq, Repr

def Write.Inside (w : Write) : Prop := 0 ≤ w.pos ∧ w.pos + w.count ≤ w.size

instance (w : Write) : Decidable w.Inside := inferInstanceAs (Decidable (_ ∧ _))

/-! ## Strings -/

/-- A string in `size` bytes with the position of the next write; the newest write
stands first. -/
structure Buffer where
  text : List Char
  ptr : Nat
  size : Nat
  writes : List Write
  deriving DecidableEq, Repr

namespace Buffer

/-- New memory, all zero. -/
def calloc (size : Nat) : Buffer := ⟨[], 0, size, [⟨0, size, size⟩]⟩

/-- An array that nothing has been written to. -/
def array (size : Nat) : Buffer := ⟨[], 0, size, []⟩

/-- Clear all bytes. -/
def memset (b : Buffer) : Buffer :=
  { b with text := [], writes := ⟨0, b.size, b.size⟩ :: b.writes }

/-- Write a string and the byte that ends it at the pointer. -/
def print (b : Buffer) (s : List Char) : Buffer :=
  { b with
    text := b.text.take b.ptr ++ s
    writes := ⟨b.ptr, s.length + 1, b.size⟩ :: b.writes }

def advance (b : Buffer) (n : Nat) : Buffer := { b with ptr := b.ptr + n }

/-- More memory, cleared from the pointer on. -/
def realloc (b : Buffer) (size : Nat) : Buffer :=
  { b with
    text := b.text.take b.ptr
    size
    writes := ⟨b.ptr, size - b.ptr, size⟩ :: b.writes }

/-- Clear the byte before the pointer. -/
def clearLast (b : Buffer) : Buffer :=
  { b with
    text := b.text.take (b.ptr - 1)
    writes := ⟨(b.ptr : Int) - 1, 1, b.size⟩ :: b.writes }

/-- The pointer is at the end of the string. -/
def AtEnd (b : Buffer) : Prop := b.ptr = b.text.length

def AllInside (b : Buffer) : Prop := ∀ w ∈ b.writes, w.Inside

variable {b : Buffer}

theorem calloc_atEnd (size : Nat) : (calloc size).AtEnd := rfl

theorem calloc_allInside (size : Nat) : (calloc size).AllInside := by
  intro w hw
  rw [List.mem_singleton.mp hw]
  exact ⟨by simp, by simp⟩

theorem AtEnd.print_text (h : b.AtEnd) (s : List Char) : (b.print s).text = b.text ++ s := by
  have htake : b.text.take b.ptr = b.text := List.take_of_length_le (Nat.le_of_eq h.symm)
  simp only [Buffer.print, htake]

/-- A string is written and the pointer moves behind it. -/
theorem AtEnd.print_advance (h : b.AtEnd) {s : List Char} {n : Nat} (hn : s.length = n) :
    ((b.print s).advance n).AtEnd := by
  have htext := h.print_text s
  have hptr : ((b.print s).advance n).ptr = b.ptr + n := rfl
  have hsame : ((b.print s).advance n).text = (b.print s).text := rfl
  rw [AtEnd, hptr, hsame, htext, List.length_append, h, hn]

theorem AtEnd.realloc_text (h : b.AtEnd) (size : Nat) : (b.realloc size).text = b.text :=
  List.take_of_length_le (Nat.le_of_eq h.symm)

theorem AtEnd.realloc (h : b.AtEnd) (size : Nat) : (b.realloc size).AtEnd := by
  rw [AtEnd, h.realloc_text]
  exact h

theorem AtEnd.clearLast_text (h : b.AtEnd) : b.clearLast.text = b.text.dropLast := by
  rw [List.dropLast_eq_take, ← show b.ptr = b.text.length from h]
  rfl

theorem print_allInside {s : List Char} :
    (b.print s).AllInside ↔ b.ptr + s.length + 1 ≤ b.size ∧ b.AllInside := by
  simp only [AllInside, print, List.forall_mem_cons, Write.Inside]
  apply and_congr_left'
  omega

theorem array_allInside (size : Nat) : (array size).AllInside := by
  simp [AllInside, array]

theorem memset_allInside : b.memset.AllInside ↔ b.AllInside := by
  simp [AllInside, memset, Write.Inside]

theorem realloc_allInside {size : Nat} (h : b.ptr ≤ size) :
    (b.realloc size).AllInside ↔ b.AllInside := by
  simp only [AllInside, realloc, List.forall_mem_cons, Write.Inside]
  apply and_iff_right
  omega

theorem clearLast_allInside :
    b.clearLast.AllInside ↔ (0 < b.ptr ∧ b.ptr ≤ b.size) ∧ b.AllInside := by
  simp only [AllInside, clearLast, List.forall_mem_cons, Write.Inside]
  apply and_congr_left'
  omega

end Buffer

/-! ## Arrays of pointers -/

/-- An array of pointers, each NULL or set, with the position of the next one. -/
structure Slots (α : Type) where
  cells : List (Option α)
  cnt : Nat
  writes : List Write
  deriving DecidableEq, Repr

namespace Slots

variable {α : Type}

def calloc (size : Nat) : Slots α := ⟨List.replicate size none, 0, []⟩

/-- Set the next pointer. -/
def store (v : Slots α) (a : Option α) : Slots α :=
  { cells := v.cells.set v.cnt a
    cnt := v.cnt + 1
    writes := ⟨v.cnt, 1, v.cells.length⟩ :: v.writes }

/-- Set the next pointer; a full array is doubled before, and its new half cleared. -/
def push (v : Slots α) (a : Option α) : Slots α :=
  if v.cnt = v.cells.length then
    { v with cells := v.cells ++ List.replicate v.cells.length none }.store a
  else v.store a

/-- Set the last pointer of the array to NULL. -/
def terminate (v : Slots α) : Slots α :=
  { v with
    cells := v.cells.set (v.cells.length - 1) none
    writes := ⟨(v.cells.length : Int) - 1, 1, v.cells.length⟩ :: v.writes }

/-- The array starts with `l`, and `room` pointers after it are NULL. -/
structure Holds (v : Slots α) (l : List α) (room : Nat) : Prop where
  cells : v.cells = l.map some ++ List.replicate room none
  cnt : v.cnt = l.length
  inside : ∀ w ∈ v.writes, w.Inside

variable {v : Slots α} {l : List α} {room : Nat}

theorem calloc_holds (size : Nat) : (calloc size : Slots α).Holds [] size :=
  ⟨rfl, rfl, by simp [calloc]⟩

theorem Holds.store (h : v.Holds l (room + 1)) (a : α) : (v.store (some a)).Holds (l ++ [a]) room := by
  have hlen : v.cells.length = l.length + (room + 1) := by
    rw [h.cells, List.length_append, List.length_map, List.length_replicate]
  constructor
  · have hcnt : v.cnt = (l.map some).length := by rw [h.cnt, List.length_map]
    simp only [Slots.store]
    rw [h.cells, hcnt, List.set_append_right _ _ (Nat.le_refl _), Nat.sub_self, List.replicate_succ,
      List.set_cons_zero, List.map_append, List.append_assoc]
    rfl
  · simp only [Slots.store]
    rw [h.cnt, List.length_append, List.length_singleton]
  · intro w hw
    rcases List.mem_cons.mp hw with rfl | hw
    · rw [h.cnt, hlen]
      exact ⟨by simp, by simp only; omega⟩
    · exact h.inside w hw

theorem Holds.terminate (h : v.Holds l (room + 1)) : v.terminate.Holds l (room + 1) := by
  have hlen : v.cells.length = (l.map some).length + (room + 1) := by
    rw [h.cells, List.length_append, List.length_replicate]
  refine ⟨?_, h.cnt, ?_⟩
  · simp only [Slots.terminate]
    rw [hlen, h.cells, List.set_append_right _ _ (by omega)]
    congr 1
    rw [List.replicate_succ', List.set_append_right _ _ (by rw [List.length_replicate]; omega),
      List.length_replicate]
    have hlast : (l.map some).length + (room + 1) - 1 - (l.map some).length - room = 0 := by omega
    rw [hlast, List.set_cons_zero]
  · intro w hw
    rcases List.mem_cons.mp hw with rfl | hw
    · exact ⟨by simp only; omega, by simp only; omega⟩
    · exact h.inside w hw

/-- Storing a list in the room there is for it. -/
theorem Holds.foldl_store {as : List α} (h : v.Holds l (as.length + room)) :
    (as.foldl (fun v a => v.store (some a)) v).Holds (l ++ as) room := by
  induction as generalizing v l with
  | nil => simpa using h
  | cons a as ih =>
    rw [List.foldl_cons, List.append_cons]
    apply ih
    apply Holds.store
    rwa [List.length_cons, Nat.add_right_comm] at h

theorem Holds.push (h : v.Holds l room) (hne : v.cells ≠ []) (a : α) :
    ∃ room', (v.push (some a)).Holds (l ++ [a]) room' := by
  unfold Slots.push
  split_ifs with hfull
  · obtain ⟨n, hn⟩ : ∃ n, v.cells.length = n + 1 :=
      Nat.exists_eq_succ_of_ne_zero fun h => hne (List.eq_nil_of_length_eq_zero h)
    have hgrown : Holds
        { v with cells := v.cells ++ List.replicate v.cells.length none } l (room + n + 1) := by
      refine ⟨?_, h.cnt, h.inside⟩
      rw [hn, h.cells, List.append_assoc, List.replicate_append_replicate]
      rfl
    exact ⟨_, hgrown.store a⟩
  · have hlen : v.cells.length = l.length + room := by
      rw [h.cells, List.length_append, List.length_map, List.length_replicate]
    obtain ⟨n, rfl⟩ : ∃ n, room = n + 1 := ⟨room - 1, by have := h.cnt; omega⟩
    exact ⟨n, h.store a⟩

theorem push_cells_ne_nil (hne : v.cells ≠ []) (a : Option α) : (v.push a).cells ≠ [] := by
  unfold Slots.push
  split_ifs <;> simpa [Slots.store] using hne

end Slots

end Memory
