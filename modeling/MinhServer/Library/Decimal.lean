import MinhServer.Library.CString

namespace CString

theorem ascii_repr (n : Nat) :
    ascii n.repr = (Nat.toDigits 10 n).map fun c => c.toNat.toUInt8 := by
  rw [ascii, Nat.toList_repr]

/-- A digit fits a byte. -/
theorem toNat_digit {c : Char} (h : c.isDigit = true) :
    c.toNat.toUInt8.toNat = c.toNat ∧ 48 ≤ c.toNat ∧ c.toNat ≤ 57 := by
  simp only [Char.isDigit, Bool.and_eq_true, decide_eq_true_eq] at h
  have hval : c.toNat = c.val.toNat := rfl
  have hlow : 48 ≤ c.val.toNat := UInt32.le_iff_toNat_le.mp h.1
  have hhigh : c.val.toNat ≤ 57 := UInt32.le_iff_toNat_le.mp h.2
  refine ⟨?_, by omega, by omega⟩
  rw [Nat.toUInt8, UInt8.toNat_ofNat']
  omega

theorem isDigit_of_mem {c : Char} {n : Nat} (h : c ∈ Nat.toDigits 10 n) : c.isDigit = true :=
  Nat.isDigit_of_mem_toDigits (by decide) (by decide) h

theorem isdigit_of_mem_repr {n : Nat} {b : Byte} (h : b ∈ ascii n.repr) : isdigit b = true := by
  rw [ascii_repr] at h
  obtain ⟨c, hc, rfl⟩ := List.mem_map.mp h
  obtain ⟨hbyte, hlow, hhigh⟩ := toNat_digit (isDigit_of_mem hc)
  have hzero : (48 : Byte).toNat = 48 := rfl
  have hnine : (57 : Byte).toNat = 57 := rfl
  simp only [isdigit, Bool.and_eq_true, decide_eq_true_eq, UInt8.le_iff_toNat_le, hbyte, hzero,
    hnine]
  exact ⟨hlow, hhigh⟩

theorem repr_ne_nil (n : Nat) : ascii n.repr ≠ [] := by
  rw [ascii_repr, ne_eq, List.map_eq_nil_iff]
  exact Nat.toDigits_ne_nil

theorem decimal_repr (n : Nat) : decimal (ascii n.repr) = n := by
  have hdigits : Nat.ofDigitChars 10 (Nat.toDigits 10 n) 0 = n :=
    Nat.ofDigitChars_toDigits (by decide) (by decide)
  rw [Nat.ofDigitChars_eq_foldl] at hdigits
  rw [ascii_repr, decimal, List.foldl_map]
  nth_rewrite 2 [← hdigits]
  apply List.foldl_ext
  intro k c hc
  rw [(toNat_digit (isDigit_of_mem hc)).1, Nat.mul_comm]
  rfl

theorem length_repr_le {n k : Nat} (hk : 0 < k) (h : n < 10 ^ k) : (ascii n.repr).length ≤ k := by
  rw [ascii_repr, List.length_map]
  exact (Nat.length_toDigits_le_iff (by decide) hk).mpr h

def EndsNumber (rest : Bytes) : Prop := ∀ b ∈ rest.head?, isdigit b = false

theorem takeWhile_repr (n : Nat) {rest : Bytes} (hrest : EndsNumber rest) :
    (ascii n.repr ++ rest).takeWhile isdigit = ascii n.repr ∧
      (ascii n.repr ++ rest).dropWhile isdigit = rest :=
  ⟨takeWhile_append_stop (fun _ hb => isdigit_of_mem_repr hb) hrest,
    dropWhile_append_stop (fun _ hb => isdigit_of_mem_repr hb) hrest⟩

theorem head_repr (n : Nat) (rest : Bytes) :
    ∃ b t, ascii n.repr ++ rest = b :: t ∧ isdigit b = true := by
  cases hd : ascii n.repr with
  | nil => exact absurd hd (repr_ne_nil n)
  | cons b t =>
    have hb : b ∈ ascii n.repr := hd ▸ List.mem_cons_self
    exact ⟨b, t ++ rest, rfl, isdigit_of_mem_repr hb⟩

theorem strtol_repr {n : Nat} (hn : n < 2 ^ 63) {rest : Bytes} (hrest : EndsNumber rest) :
    strtol (ascii n.repr ++ rest) = ((n : Int), rest) := by
  obtain ⟨htake, hdrop⟩ := takeWhile_repr n hrest
  obtain ⟨b, t, hbt, hdigit⟩ := head_repr n rest
  have hspace : (ascii n.repr ++ rest).dropWhile isspace = ascii n.repr ++ rest := by
    rw [hbt, List.dropWhile_cons, isspace_of_isdigit hdigit, if_neg Bool.false_ne_true]
  have hsign : ∀ c : Byte, isdigit c = false → (ascii n.repr ++ rest).head? ≠ some c := by
    rintro c hc heq
    rw [hbt, List.head?_cons, Option.some.injEq] at heq
    rw [heq, hc] at hdigit
    cases hdigit
  have hplus := hsign 43 rfl
  have hminus := hsign 45 rfl
  simp only [strtol, hspace, hplus, hminus, or_self, if_false, htake, hdrop, repr_ne_nil,
    decimal_repr, Prod.mk.injEq, and_true]
  omega

theorem strtol_minus_repr {n : Nat} (hn : n ≤ 2 ^ 63) {rest : Bytes} (hrest : EndsNumber rest) :
    strtol (45 :: (ascii n.repr ++ rest)) = (-(n : Int), rest) := by
  obtain ⟨htake, hdrop⟩ := takeWhile_repr n hrest
  have hspace : (45 :: (ascii n.repr ++ rest)).dropWhile isspace =
      45 :: (ascii n.repr ++ rest) := rfl
  simp only [strtol, hspace, List.head?_cons, or_true, if_true, List.tail_cons, htake, hdrop,
    repr_ne_nil, if_false, decimal_repr, Prod.mk.injEq, and_true]
  omega

end CString
