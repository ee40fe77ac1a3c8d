import Mathlib.Data.List.Basic
import Mathlib.Tactic.Common

namespace Memory
variable {α : Type*}

/-- The `len` cells from `start` on. -/
def load (mem : List α) (start len : Nat) : Option (List α) :=
  if start + len ≤ mem.length then some ((mem.drop start).take len) else none

def store (mem : List α) (start : Nat) (data : List α) : Option (List α) :=
  if start + data.length ≤ mem.length then
    some (mem.take start ++ data ++ mem.drop (start + data.length))
  else none

/-- `stale i` is what a new cell `i` happens to hold. -/
def realloc (stale : Nat → α) (mem : List α) (size : Nat) : List α :=
  mem.take size ++ (List.range' mem.length (size - mem.length)).map stale

variable {mem data : List α} {start len size : Nat} {stale : Nat → α}

theorem load_of_le (h : start + len ≤ mem.length) :
    load mem start len = some ((mem.drop start).take len) := if_pos h

theorem exists_store (h : start + data.length ≤ mem.length) :
    ∃ mem', store mem start data = some mem' ∧ mem'.length = mem.length ∧
      mem'.take (start + data.length) = mem.take start ++ data := by
  refine ⟨_, if_pos h, ?_, ?_⟩
  · simp only [List.length_append, List.length_take, List.length_drop]
    omega
  · have hlen : (mem.take start ++ data).length = start + data.length := by
      rw [List.length_append, List.length_take]
      omega
    exact List.take_left' hlen

theorem length_realloc : (realloc stale mem size).length = size := by
  simp only [realloc, List.length_append, List.length_take, List.length_map, List.length_range']
  omega

theorem take_realloc (hlen : len ≤ mem.length) (hsize : len ≤ size) :
    (realloc stale mem size).take len = mem.take len := by
  have htake : len ≤ (mem.take size).length := by
    rw [List.length_take]
    omega
  rw [realloc, List.take_append_of_le_length htake, List.take_take, Nat.min_eq_left hsize]

end Memory
