import MinhServer.Library.CString
import MinhServer.Library.Memory

namespace Pointer
open CString Memory

def byteAt (mem : Bytes) (ptr : Nat) : Option Byte := mem[ptr]?

def stringAt (mem : Bytes) (ptr : Nat) : Option Bytes :=
  if 0 ∈ mem.drop ptr then some (cstr (mem.drop ptr)) else none

/-- `strncasecmp(ptr, name, n) == 0`, where all `n` bytes can be read. -/
def compareAt (mem : Bytes) (ptr : Nat) (name : Bytes) (n : Nat) : Option Bool :=
  (load mem ptr n).map fun bytes => eqNoCase bytes name n

/-- `stop - start` as a length. -/
def lengthBetween (start stop : Nat) : Option Nat :=
  if start ≤ stop then some (stop - start) else none

/-- `strncpy` of `len` bytes into a `char[size]`, and the terminator after them. -/
def copyInto (size : Nat) (mem : Bytes) (ptr len : Nat) : Option Bytes :=
  if len < size then (load mem ptr len).map (· ++ [0]) else none

/-- `while (*ptr == c && ptr < stop) ptr++` -/
def skip (c : Byte) (mem : Bytes) (ptr stop : Nat) : Option Nat := do
  if (← byteAt mem ptr) = c ∧ ptr < stop then skip c mem (ptr + 1) stop else some ptr
termination_by stop - ptr

theorem length_stringAt_le {mem text : Bytes} {ptr : Nat} (h : stringAt mem ptr = some text) :
    text.length ≤ mem.length - ptr := by
  unfold stringAt at h
  split at h
  · cases h
    have hle := (cstr_isPrefix (mem.drop ptr)).length_le
    rw [List.length_drop] at hle
    exact hle
  · cases h

section Terminated
variable {s : Bytes} {ptr start stop n : Nat}

theorem load_terminated (h : start + n ≤ s.length) :
    load (s ++ [0]) start n = some ((s.drop start).take n) := by
  have hle : start + n ≤ (s ++ [0]).length := by
    rw [List.length_append]
    omega
  rw [load_of_le hle, List.drop_append_of_le_length (by omega), List.take_append_of_le_length]
  rw [List.length_drop]
  omega

theorem compareAt_terminated (name : Bytes) (h : ptr + n ≤ s.length) :
    compareAt (s ++ [0]) ptr name n = some (eqNoCase (s.drop ptr) name n) := by
  rw [compareAt, load_terminated h, Option.map_some, eqNoCase, eqNoCase, List.take_take,
    Nat.min_self]

theorem copyInto_terminated {size : Nat} (h : start + n ≤ s.length) (hn : n < size) :
    copyInto size (s ++ [0]) start n = some ((s.drop start).take n ++ [0]) := by
  rw [copyInto, if_pos hn, load_terminated h]
  rfl

theorem byteAt_terminated (h : ptr < s.length) : byteAt (s ++ [0]) ptr = some s[ptr] := by
  rw [byteAt, List.getElem?_append_left h, List.getElem?_eq_getElem h]

/-- Skipping stops at `stop` at the latest. -/
theorem skip_terminated (c : Byte) (h : start ≤ stop) (hstop : stop ≤ s.length) :
    ∃ ptr, skip c (s ++ [0]) start stop = some ptr ∧ start ≤ ptr ∧ ptr ≤ stop ∧
      (s.drop ptr).take (stop - ptr) =
        ((s.drop start).take (stop - start)).dropWhile (· == c) := by
  induction hsize : stop - start generalizing start with
  | zero =>
    obtain rfl : start = stop := by omega
    have hinside : start < (s ++ [0]).length := by
      rw [List.length_append]
      exact Nat.lt_succ_of_le hstop
    have hread : byteAt (s ++ [0]) start = some (s ++ [0])[start] :=
      List.getElem?_eq_getElem hinside
    refine ⟨start, ?_, le_rfl, le_rfl, by simp⟩
    rw [skip, hread]
    simp
  | succ k ih =>
    have hlt : start < s.length := by omega
    have hread := byteAt_terminated hlt
    have hcons : (s.drop start).take (k + 1) = s[start] :: (s.drop (start + 1)).take k := by
      rw [List.drop_eq_getElem_cons hlt, List.take_succ_cons]
    rw [skip, hread]
    by_cases hc : s[start] = c
    · obtain ⟨ptr, hskip, hle, hend, hrest⟩ := @ih (start + 1) (by omega) (by omega)
      have hgo : s[start] = c ∧ start < stop := ⟨hc, by omega⟩
      refine ⟨ptr, ?_, by omega, hend, ?_⟩
      · simp only [Option.bind_eq_bind, Option.bind_some, if_pos hgo]
        exact hskip
      · rw [hcons, List.dropWhile_cons_of_pos (by simpa using hc)]
        exact hrest
    · refine ⟨start, ?_, le_rfl, by omega, ?_⟩
      · simp [hc]
      · rw [hcons, List.dropWhile_cons_of_neg (by simpa using hc), hsize, hcons]

variable (h0 : 0 ∉ s)
include h0

theorem stringAt_terminated (h : ptr ≤ s.length) :
    stringAt (s ++ [0]) ptr = some (s.drop ptr) := by
  have hdrop : (s ++ [0]).drop ptr = s.drop ptr ++ [0] := List.drop_append_of_le_length h
  have hrest : 0 ∉ s.drop ptr := fun hmem => h0 (List.mem_of_mem_drop hmem)
  rw [stringAt, hdrop, if_pos (by simp), cstr_append hrest]
  simp [cstr]

end Terminated
end Pointer
