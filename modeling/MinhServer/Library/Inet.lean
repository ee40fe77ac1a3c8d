import MinhServer.Library.CString

namespace Inet
open CString

/-- The field is the number of an octet. -/
def isOctet (field : Bytes) : Bool :=
  field ≠ [] ∧ field.all isdigit ∧ decimal field ≤ 255 ∧ (field.head? = some 48 → field = [48])

/-- `inet_pton(AF_INET, text, _)` returns 1. -/
def inetPton (text : Bytes) : Bool :=
  let fields := text.splitOn 46
  fields.length = 4 ∧ fields.all isOctet

def digit (n : Nat) : Byte := (48 + n).toUInt8

def octet (n : Nat) : Bytes :=
  if n < 10 then [digit n]
  else if n < 100 then [digit (n / 10), digit (n % 10)]
  else [digit (n / 100), digit (n / 10 % 10), digit (n % 10)]

/-- `a.b.c.d` -/
def dottedQuad (a b c d : Fin 256) : Bytes :=
  octet a ++ 46 :: (octet b ++ 46 :: (octet c ++ 46 :: octet d))

/-- The text is the dotted form of four octets. -/
def IsAddress (text : Bytes) : Prop := ∃ a b c d, text = dottedQuad a b c d

theorem isOctet_octet : ∀ n : Fin 256, isOctet (octet n) = true ∧ 46 ∉ octet n := by decide +kernel

theorem toNat_digit {n : Nat} (h : n < 10) : (digit n).toNat = 48 + n := by
  change (48 + n) % 256 = 48 + n
  omega

theorem exists_digit {b : Byte} (h : isdigit b = true) : ∃ n < 10, b = digit n := by
  simp only [isdigit, Bool.and_eq_true, decide_eq_true_eq, UInt8.le_iff_toNat_le] at h
  obtain ⟨hlow, hhigh⟩ := h
  change 48 ≤ b.toNat at hlow
  change b.toNat ≤ 57 at hhigh
  refine ⟨b.toNat - 48, by omega, UInt8.toNat_inj.mp ?_⟩
  rw [toNat_digit (by omega)]
  omega

theorem le_decimal_append (ds es : Bytes) : decimal ds * 10 ^ es.length ≤ decimal (ds ++ es) := by
  induction es using List.reverseRecOn with
  | nil => simp
  | append_singleton es e ih =>
    have hlast : decimal (ds ++ (es ++ [e])) = decimal (ds ++ es) * 10 + (e.toNat - 48) := by
      simp [decimal, List.foldl_append]
    calc decimal ds * 10 ^ (es ++ [e]).length = decimal ds * 10 ^ es.length * 10 := by
          rw [List.length_append, List.length_singleton, pow_succ, Nat.mul_assoc]
      _ ≤ decimal (ds ++ es) * 10 := Nat.mul_le_mul_right 10 ih
      _ ≤ decimal (ds ++ (es ++ [e])) := by omega

theorem octet_two {a b : Nat} (hpos : 0 < a) (ha : a < 10) (hb : b < 10) :
    octet (a * 10 + b) = [digit a, digit b] := by
  have htens : (a * 10 + b) / 10 = a := by omega
  have hones : (a * 10 + b) % 10 = b := by omega
  rw [octet, if_neg (by omega), if_pos (by omega), htens, hones]

theorem octet_three {a b c : Nat} (hpos : 0 < a) (hb : b < 10) (hc : c < 10) :
    octet ((a * 10 + b) * 10 + c) = [digit a, digit b, digit c] := by
  have hhundreds : ((a * 10 + b) * 10 + c) / 100 = a := by omega
  have htens : ((a * 10 + b) * 10 + c) / 10 % 10 = b := by omega
  have hones : ((a * 10 + b) * 10 + c) % 10 = c := by omega
  rw [octet, if_neg (by omega), if_neg (by omega), hhundreds, htens, hones]

/-- A field of an octet has one to three digits, so it is the octet's decimal form. -/
theorem exists_octet {field : Bytes} (h : isOctet field = true) :
    ∃ n : Fin 256, field = octet n := by
  simp only [isOctet, decide_eq_true_eq] at h
  obtain ⟨hne, hdigits, hvalue, hzero⟩ := h
  rw [List.all_eq_true] at hdigits
  rcases field with _ | ⟨x, _ | ⟨y, rest⟩⟩
  · exact absurd rfl hne
  · obtain ⟨a, ha, rfl⟩ := exists_digit (hdigits x (by simp))
    exact ⟨⟨a, by omega⟩, (if_pos ha).symm⟩
  · obtain ⟨a, ha, rfl⟩ := exists_digit (hdigits x (by simp))
    obtain ⟨b, hb, rfl⟩ := exists_digit (hdigits y (by simp))
    have hapos : 0 < a := by
      by_contra hnot
      obtain rfl : a = 0 := by omega
      cases hzero rfl
    have htwo : decimal [digit a, digit b] = a * 10 + b := by
      simp [decimal, toNat_digit ha, toNat_digit hb]
    rcases rest with _ | ⟨z, _ | ⟨w, rest⟩⟩
    · exact ⟨⟨a * 10 + b, by omega⟩, (octet_two hapos ha hb).symm⟩
    · obtain ⟨c, hc, rfl⟩ := exists_digit (hdigits z (by simp))
      have hthree : decimal [digit a, digit b, digit c] = (a * 10 + b) * 10 + c := by
        simp [decimal, toNat_digit ha, toNat_digit hb, toNat_digit hc]
      exact ⟨⟨(a * 10 + b) * 10 + c, by omega⟩, (octet_three hapos hb hc).symm⟩
    · -- four digits, the first of them not zero, are too many
      have hlarge := le_decimal_append [digit a, digit b] (z :: w :: rest)
      have hpow : 10 ^ 2 ≤ 10 ^ (z :: w :: rest).length :=
        Nat.pow_le_pow_right (by omega) (by simp)
      have hscaled := Nat.mul_le_mul (Nat.le_mul_of_pos_left 10 hapos) hpow
      rw [htwo] at hlarge
      have hsum := Nat.mul_le_mul_right (10 ^ (z :: w :: rest).length) (Nat.le_add_right (a * 10) b)
      simp only [List.cons_append, List.nil_append] at hlarge
      omega

theorem dottedQuad_eq (a b c d : Fin 256) :
    dottedQuad a b c d = [46].intercalate [octet a, octet b, octet c, octet d] := by
  simp [dottedQuad, List.intercalate]

theorem inetPton_iff (text : Bytes) : inetPton text = true ↔ IsAddress text := by
  unfold inetPton
  simp only [decide_eq_true_eq]
  constructor
  · rintro ⟨hlength, hoctets⟩
    match hfields : text.splitOn 46 with
    | [w, x, y, z] =>
      rw [hfields, List.all_eq_true] at hoctets
      obtain ⟨a, rfl⟩ := exists_octet (hoctets w (by simp))
      obtain ⟨b, rfl⟩ := exists_octet (hoctets x (by simp))
      obtain ⟨c, rfl⟩ := exists_octet (hoctets y (by simp))
      obtain ⟨d, rfl⟩ := exists_octet (hoctets z (by simp))
      refine ⟨a, b, c, d, ?_⟩
      rw [dottedQuad_eq, ← hfields]
      exact (List.intercalate_splitOn 46).symm
    | [] | [_] | [_, _] | [_, _, _] | _ :: _ :: _ :: _ :: _ :: _ => simp [hfields] at hlength
  · rintro ⟨a, b, c, d, rfl⟩
    have hfields : (dottedQuad a b c d).splitOn 46 = [octet a, octet b, octet c, octet d] := by
      rw [dottedQuad_eq]
      refine List.splitOn_intercalate 46 ?_ (by simp)
      simp [(isOctet_octet _).2]
    rw [hfields]
    exact ⟨rfl, by simp [(isOctet_octet _).1]⟩

end Inet
