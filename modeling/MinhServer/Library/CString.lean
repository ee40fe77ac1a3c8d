import Mathlib.Algebra.Order.Ring.Int
import Mathlib.Data.List.Basic
import Mathlib.Data.List.DropRight
import Mathlib.Data.List.Infix
import Mathlib.Data.List.TakeWhile

namespace CString

abbrev Byte := UInt8
abbrev Bytes := List Byte

def ascii (s : String) : Bytes := s.toList.map fun c => c.toNat.toUInt8

/-- The C string at the start of `m`: the bytes before the first NUL. -/
def cstr (m : Bytes) : Bytes := m.takeWhile (· ≠ 0)

theorem zero_notMem_cstr (m : Bytes) : 0 ∉ cstr m := by
  intro h
  have := List.mem_takeWhile_imp h
  simp at this

theorem cstr_isPrefix (m : Bytes) : cstr m <+: m := List.takeWhile_prefix _

theorem take_cstr {m : Bytes} {n : Nat} (h : n ≤ (cstr m).length) : (cstr m).take n = m.take n := by
  nth_rewrite 1 [List.prefix_iff_eq_take.mp (cstr_isPrefix m)]
  rw [List.take_take, min_eq_left h]

theorem cstr_take {m : Bytes} {n : Nat} (h : (cstr m).length ≤ n) : cstr (m.take n) = cstr m := by
  induction m generalizing n with
  | nil => simp [cstr]
  | cons b m ih =>
    unfold cstr at h ih ⊢
    rw [List.takeWhile_cons] at h ⊢
    split at h
    · next hb =>
      cases n with
      | zero => simp at h
      | succ n => rw [List.take_succ_cons, List.takeWhile_cons, if_pos hb, if_pos hb,
          ih (by simpa using h)]
    · next hb =>
      cases n with
      | zero => rw [if_neg hb]; rfl
      | succ n => rw [List.take_succ_cons, List.takeWhile_cons, if_neg hb, if_neg hb]

theorem cstr_eq_self {m : Bytes} (h : 0 ∉ m) : cstr m = m := by
  apply List.takeWhile_eq_self_iff.mpr
  intro b hb
  have : b ≠ 0 := fun h0 => h (h0 ▸ hb)
  simpa using this

theorem cstr_append {a b : Bytes} (h : 0 ∉ a) : cstr (a ++ b) = a ++ cstr b := by
  unfold cstr
  apply List.takeWhile_append_of_pos
  intro x hx
  have : x ≠ 0 := fun h0 => h (h0 ▸ hx)
  simpa using this

theorem cstr_terminated (a t : Bytes) : cstr (a ++ 0 :: t) = cstr a := by
  induction a with
  | nil => rfl
  | cons b a ih =>
    unfold cstr at ih ⊢
    rw [List.cons_append, List.takeWhile_cons, List.takeWhile_cons, ih]

theorem cstr_drop {m : Bytes} {k : Nat} (hk : k ≤ (cstr m).length) :
    cstr (m.drop k) = (cstr m).drop k := by
  induction m generalizing k with
  | nil => simp [cstr]
  | cons b m ih =>
    cases k with
    | zero => rfl
    | succ k =>
      unfold cstr at hk ih ⊢
      rw [List.takeWhile_cons] at hk ⊢
      split at hk
      · next hb => rw [if_pos hb, List.drop_succ_cons, List.drop_succ_cons, ih (by simpa using hk)]
      · simp at hk

section Runs
variable {α : Type*} {p : α → Bool} {a b : List α}

theorem takeWhile_append_stop (ha : ∀ x ∈ a, p x = true) (hb : ∀ x ∈ b.head?, p x = false) :
    (a ++ b).takeWhile p = a := by
  rw [List.takeWhile_append_of_pos ha]
  cases b with
  | nil => simp
  | cons x b => simp [hb x rfl]

theorem dropWhile_append_stop (ha : ∀ x ∈ a, p x = true) (hb : ∀ x ∈ b.head?, p x = false) :
    (a ++ b).dropWhile p = b := by
  rw [List.dropWhile_append_of_pos ha]
  cases b with
  | nil => rfl
  | cons x b => simp [hb x rfl]

theorem drop_length_takeWhile (p : α → Bool) (l : List α) :
    l.drop (l.takeWhile p).length = l.dropWhile p := by
  have h := @List.drop_left α (l.takeWhile p) (l.dropWhile p)
  rwa [List.takeWhile_append_dropWhile] at h

end Runs

section Occurrences
variable {α : Type*} {m x y : List α}

theorem infix_append_iff :
    m <:+: x ++ y ↔ (∃ s, s ≠ [] ∧ s <:+ x ∧ m <+: s ++ y) ∨ m <:+: y := by
  induction x with
  | nil =>
    refine ⟨.inr, ?_⟩
    rintro (⟨s, hne, hs, -⟩ | h)
    · exact absurd (List.suffix_nil.mp hs) hne
    · exact h
  | cons a x ih =>
    rw [List.cons_append, List.infix_cons_iff, ih]
    constructor
    · rintro (h | ⟨s, hne, hs, h⟩ | h)
      · exact .inl ⟨a :: x, List.cons_ne_nil _ _, List.suffix_rfl, h⟩
      · exact .inl ⟨s, hne, hs.trans (List.suffix_cons a x), h⟩
      · exact .inr h
    · rintro (⟨s, hne, hs, h⟩ | h)
      · rcases List.suffix_cons_iff.mp hs with rfl | hs
        · exact .inl h
        · exact .inr (.inl ⟨s, hne, hs, h⟩)
      · exact .inr (.inr h)

theorem infix_append_of_head {a : α} (h : ∀ b ∈ y.head?, b ∉ m) :
    a :: m <:+: x ++ y ↔ a :: m <:+: x ∨ a :: m <:+: y := by
  rw [infix_append_iff]
  refine or_congr_left ⟨?_, ?_⟩
  · rintro ⟨s, hne, hs, t, ht⟩
    rcases List.append_eq_append_iff.mp ht with ⟨u, rfl, -⟩ | ⟨u, hu, hy⟩
    · exact (List.prefix_append _ _).isInfix.trans hs.isInfix
    · cases u with
      | nil =>
        rw [hu, List.append_nil]
        exact hs.isInfix
      | cons b u =>
        obtain ⟨c, s, rfl⟩ := List.exists_cons_of_ne_nil hne
        have hm : m = s ++ b :: u := (List.cons.inj hu).2
        refine absurd ?_ (h b (by simp [hy]))
        rw [hm]
        exact List.mem_append_right _ List.mem_cons_self
  · rintro ⟨p, q, hpq⟩
    refine ⟨a :: m ++ q, by simp, ⟨p, ?_⟩, ?_⟩
    · rw [← hpq, List.append_assoc]
    · rw [List.append_assoc]
      exact List.prefix_append _ _

end Occurrences

/-- Offset of the first occurrence of `pat` in `s` (`strstr`). -/
def strstr (s pat : Bytes) : Option Nat :=
  match s with
  | [] => if pat = [] then some 0 else none
  | b :: t => if pat <+: b :: t then some 0 else (strstr t pat).map (· + 1)

theorem strstr_eq_zero {s pat : Bytes} (h : pat <+: s) : strstr s pat = some 0 := by
  cases s with
  | nil => simpa [strstr] using h
  | cons b t => simp [strstr, h]

theorem strstr_cons_of_not {b : Byte} {t pat : Bytes} (h : ¬ pat <+: b :: t) :
    strstr (b :: t) pat = (strstr t pat).map (· + 1) := by
  simp [strstr, h]

theorem strstr_found {s pat : Bytes} {i : Nat} (h : strstr s pat = some i) :
    pat <+: s.drop i := by
  induction s generalizing i with
  | nil =>
    simp only [strstr] at h
    split at h
    · next hp => subst hp; simp
    · cases h
  | cons b t ih =>
    by_cases hp : pat <+: b :: t
    · rw [strstr_eq_zero hp] at h
      cases h
      simpa using hp
    · rw [strstr_cons_of_not hp] at h
      obtain ⟨j, hj, rfl⟩ := Option.map_eq_some_iff.mp h
      simpa using ih hj

theorem strstr_split {s pat : Bytes} {i : Nat} (h : strstr s pat = some i) :
    s.drop i = pat ++ s.drop (i + pat.length) := by
  obtain ⟨t, ht⟩ := strstr_found h
  rw [← List.drop_drop, ← ht, List.drop_left]

theorem strstr_first {s pat : Bytes} {i : Nat} (h : strstr s pat = some i) {j : Nat}
    (hj : j < i) : ¬ pat <+: s.drop j := by
  induction s generalizing i j with
  | nil =>
    simp only [strstr] at h
    split at h
    · cases h; omega
    · cases h
  | cons b t ih =>
    by_cases hp : pat <+: b :: t
    · rw [strstr_eq_zero hp] at h
      cases h
      omega
    · rw [strstr_cons_of_not hp] at h
      obtain ⟨k, hk, rfl⟩ := Option.map_eq_some_iff.mp h
      cases j with
      | zero => simpa using hp
      | succ j => simpa using ih hk (by omega)

theorem strstr_isSome_of_prefix {s pat : Bytes} {i : Nat} (hi : i ≤ s.length)
    (h : pat <+: s.drop i) : ∃ j ≤ i, strstr s pat = some j := by
  induction s generalizing i with
  | nil =>
    have : i = 0 := by simpa using hi
    subst this
    exact ⟨0, le_rfl, strstr_eq_zero (by simpa using h)⟩
  | cons b t ih =>
    by_cases hp : pat <+: b :: t
    · exact ⟨0, Nat.zero_le _, strstr_eq_zero hp⟩
    · cases i with
      | zero => exact absurd (by simpa using h) hp
      | succ i =>
        obtain ⟨j, hj, he⟩ := ih (by simpa using hi) (by simpa using h)
        exact ⟨j + 1, by omega, by rw [strstr_cons_of_not hp, he]; rfl⟩

theorem strstr_eq_some_iff {s pat : Bytes} {i : Nat} (hi : i ≤ s.length) :
    strstr s pat = some i ↔ pat <+: s.drop i ∧ ∀ j < i, ¬ pat <+: s.drop j := by
  constructor
  · exact fun h => ⟨strstr_found h, fun j hj => strstr_first h hj⟩
  · rintro ⟨hf, hmin⟩
    obtain ⟨j, hj, he⟩ := strstr_isSome_of_prefix hi hf
    rcases Nat.lt_or_eq_of_le hj with hlt | rfl
    · exact absurd (strstr_found he) (hmin j hlt)
    · exact he

/-- The occurrence found ends inside the string. -/
theorem strstr_end_le {s pat : Bytes} {i : Nat} (hp : pat ≠ []) (h : strstr s pat = some i) :
    i + pat.length ≤ s.length := by
  have hl := (strstr_found h).length_le
  have hpos := List.length_pos_iff.mpr hp
  rw [List.length_drop] at hl
  omega

theorem strstr_append {s pat : Bytes} {i : Nat} (hp : pat ≠ []) (h : strstr s pat = some i)
    (t : Bytes) : strstr (s ++ t) pat = some i := by
  have hle := strstr_end_le hp h
  refine (strstr_eq_some_iff (by simp; omega)).mpr ⟨?_, fun j hj hc => ?_⟩
  · rw [List.drop_append_of_le_length (by omega)]
    exact (strstr_found h).trans (List.prefix_append _ _)
  · rw [List.drop_append_of_le_length (by omega)] at hc
    apply strstr_first h hj
    exact List.prefix_of_prefix_length_le hc (List.prefix_append _ _)
      (by rw [List.length_drop]; omega)

theorem strstr_take {s pat : Bytes} {i n : Nat} (hp : pat ≠ []) (h : strstr s pat = some i)
    (hn : i + pat.length ≤ n) : strstr (s.take n) pat = some i := by
  have hle := strstr_end_le hp h
  refine (strstr_eq_some_iff (by simp; omega)).mpr ⟨?_, fun j hj hc => ?_⟩
  · rw [List.drop_take]
    exact List.prefix_take_iff.mpr ⟨strstr_found h, by omega⟩
  · apply strstr_first h hj
    rw [List.drop_take] at hc
    exact hc.trans (List.take_prefix _ _)

theorem strstr_eq_none_iff {s pat : Bytes} : strstr s pat = none ↔ ¬ pat <:+: s := by
  constructor
  · rintro h ⟨a, b, rfl⟩
    have hpat : pat <+: (a ++ pat ++ b).drop a.length := by simp
    obtain ⟨i, -, hi⟩ := strstr_isSome_of_prefix (by simp) hpat
    rw [h] at hi
    cases hi
  · intro h
    cases hs : strstr s pat with
    | none => rfl
    | some i => exact absurd ((strstr_found hs).isInfix.trans (List.drop_suffix i s).isInfix) h

theorem strstr_append_of_absent {a : Bytes} {c d : Byte} (hcd : c ≠ d) (h : ¬ [c, d] <:+: a)
    (t pat : Bytes) :
    strstr (a ++ c :: t) (c :: d :: pat) = (strstr (c :: t) (c :: d :: pat)).map (· + a.length) := by
  induction a with
  | nil => simp
  | cons b a ih =>
    have ha : ¬ [c, d] <:+: a := fun hcut => h (hcut.trans (List.suffix_cons b a).isInfix)
    have hno : ¬ c :: d :: pat <+: b :: (a ++ c :: t) := by
      intro hp
      obtain ⟨rfl, hnext⟩ := List.cons_prefix_cons.mp hp
      cases a with
      | nil => exact hcd (List.cons_prefix_cons.mp hnext).1.symm
      | cons x a =>
        obtain ⟨rfl, -⟩ := List.cons_prefix_cons.mp hnext
        exact h (List.IsPrefix.isInfix ⟨a, rfl⟩)
    rw [List.cons_append, strstr_cons_of_not hno, ih ha, Option.map_map]
    congr 1

/-- Offset of the first `c` (`strchr`). -/
def strchr (s : Bytes) (c : Byte) : Option Nat := s.findIdx? (· == c)

theorem take_strchr {s : Bytes} {c : Byte} {n : Nat} (h : strchr s c = some n) :
    s.take n = s.takeWhile (· ≠ c) := by
  induction s generalizing n with
  | nil => simp [strchr] at h
  | cons b t ih =>
    by_cases hb : b = c
    · simp only [strchr, List.findIdx?_cons, hb, beq_self_eq_true, ↓reduceIte,
        Option.some.injEq] at h
      simp [← h, hb]
    · simp only [strchr, List.findIdx?_cons, beq_iff_eq, hb, ↓reduceIte,
        Option.map_eq_some_iff] at h
      obtain ⟨m, hm, rfl⟩ := h
      have := ih (n := m) hm
      simp_all

theorem strchr_eq_none_iff {s : Bytes} {c : Byte} : strchr s c = none ↔ c ∉ s := by
  rw [strchr, List.findIdx?_eq_none_iff]
  constructor
  · intro h hc
    simpa using h c hc
  · intro h b hb
    simpa using fun heq : b = c => h (heq ▸ hb)

theorem strchr_append {a : Bytes} {c : Byte} (ha : c ∉ a) (t : Bytes) :
    strchr (a ++ c :: t) c = some a.length := by
  have hnone : a.findIdx? (· == c) = none := strchr_eq_none_iff.mpr ha
  rw [strchr, List.findIdx?_append, hnone, List.findIdx?_cons, beq_self_eq_true, if_pos rfl]
  simp

theorem strchr_lt {s : Bytes} {c : Byte} {n : Nat} (h : strchr s c = some n) : n < s.length :=
  (List.findIdx?_eq_some_iff_findIdx_eq.mp h).1

theorem strchr_take (s : Bytes) (c : Byte) (k : Nat) :
    strchr (s.take k) c = (strchr s c).bind (Option.guard (· < k)) := List.findIdx?_take

/-- Offset of the last `c` (`strrchr`). -/
def strrchr (s : Bytes) (c : Byte) : Option Nat :=
  match s with
  | [] => none
  | b :: t =>
    match strrchr t c with
    | some i => some (i + 1)
    | none => if b = c then some 0 else none

theorem strrchr_eq_none_iff {s : Bytes} {c : Byte} : strrchr s c = none ↔ c ∉ s := by
  induction s with
  | nil => simp [strrchr]
  | cons b t ih =>
    simp only [strrchr, List.mem_cons, not_or]
    cases h : strrchr t c with
    | some i =>
      have : ¬ c ∉ t := by rw [← ih, h]; simp
      simp [this]
    | none =>
      have hc : c ∉ t := ih.mp h
      by_cases hb : b = c
      · simp [hb]
      · simp [hb, hc, Ne.symm hb]

theorem strrchr_spec {s : Bytes} {c : Byte} {i : Nat} (h : strrchr s c = some i) :
    ∃ a b, s = a ++ c :: b ∧ a.length = i ∧ c ∉ b := by
  induction s generalizing i with
  | nil => simp [strrchr] at h
  | cons x t ih =>
    cases ht : strrchr t c with
    | some j =>
      simp only [strrchr, ht, Option.some.injEq] at h
      obtain ⟨a, b, rfl, rfl, hb⟩ := ih ht
      exact ⟨x :: a, b, rfl, by simpa using h, hb⟩
    | none =>
      simp only [strrchr, ht] at h
      by_cases hx : x = c
      · simp only [hx, ↓reduceIte, Option.some.injEq] at h
        exact ⟨[], t, by simp [hx], by simpa using h, strrchr_eq_none_iff.mp ht⟩
      · simp [hx] at h

/-- `isspace` in the C locale. -/
def isspace (b : Byte) : Bool := b == 32 || (9 ≤ b && b ≤ 13)

def isdigit (b : Byte) : Bool := 48 ≤ b && b ≤ 57

theorem isspace_of_isdigit {b : Byte} (h : isdigit b = true) : isspace b = false := by
  simp only [isdigit, Bool.and_eq_true, decide_eq_true_eq, UInt8.le_iff_toNat_le] at h
  simp only [isspace, Bool.or_eq_false_iff, beq_eq_false_iff_ne, Bool.and_eq_false_iff,
    decide_eq_false_iff_not, UInt8.le_iff_toNat_le, ne_eq, ← UInt8.toNat_inj]
  have : (48 : Byte).toNat = 48 := rfl
  have : (32 : Byte).toNat = 32 := rfl
  have : (13 : Byte).toNat = 13 := rfl
  omega

def tolower (b : Byte) : Byte := if 65 ≤ b && b ≤ 90 then b + 32 else b

/-- `strncasecmp(a, b, n) == 0`. -/
def eqNoCase (a b : Bytes) (n : Nat) : Bool :=
  (a.take n).map tolower == (b.take n).map tolower

/-- `strcasecmp(a, b) == 0`. -/
def sameNoCase (a b : Bytes) : Bool := a.map tolower == b.map tolower

def decimal (ds : Bytes) : Nat := ds.foldl (fun n c => n * 10 + (c.toNat - 48)) 0

/-- Wrap-around of a 32-bit `int`. -/
def int32 (x : Int) : Int := x.bmod (2 ^ 32)

/-- The digit loop `length = length * 10 + (c - '0')` over an `int`. -/
def decimalInt32 (ds : Bytes) : Int :=
  ds.foldl (fun n c => int32 (n * 10 + (c.toNat - 48 : Nat))) 0

theorem int32_step (x d : Int) : int32 (int32 x * 10 + d) = int32 (x * 10 + d) := by
  unfold int32
  rw [← Int.bmod_add_bmod, Int.bmod_mul_bmod, Int.bmod_add_bmod]

theorem int32_eq_self {n : Nat} (h : n < 2 ^ 31) : int32 n = n := by
  unfold int32
  rw [Int.bmod_eq_of_le] <;> omega

theorem int32_eq_iff {x n : Nat} : int32 x = n ↔ n < 2 ^ 31 ∧ x % 2 ^ 32 = n := by
  unfold int32
  rw [Int.bmod_def]
  split <;> omega

theorem decimalInt32_eq (ds : Bytes) : decimalInt32 ds = int32 (decimal ds) := by
  induction ds using List.reverseRecOn with
  | nil => rfl
  | append_singleton ds c ih =>
    have hn : decimal (ds ++ [c]) = decimal ds * 10 + (c.toNat - 48) := by simp [decimal]
    have hi : decimalInt32 (ds ++ [c]) =
        int32 (decimalInt32 ds * 10 + (c.toNat - 48 : Nat)) := by simp [decimalInt32]
    rw [hi, ih, int32_step, hn]
    simp

/-- `strtol(s, &endptr, 10)` for a 64-bit `long`: the value and what `endptr` points at. -/
def strtol (s : Bytes) : Int × Bytes :=
  let t := s.dropWhile isspace
  let u := if t.head? = some 43 ∨ t.head? = some 45 then t.tail else t
  let ds := u.takeWhile isdigit
  if ds = [] then (0, s)
  else
    let v : Int := if t.head? = some 45 then -decimal ds else decimal ds
    (max (-2 ^ 63) (min (2 ^ 63 - 1) v), u.dropWhile isdigit)

theorem strtol_range (s : Bytes) : -2 ^ 63 ≤ (strtol s).1 ∧ (strtol s).1 < 2 ^ 63 := by
  unfold strtol
  generalize s.dropWhile isspace = t
  dsimp only
  generalize (if t.head? = some 43 ∨ t.head? = some 45 then t.tail else t) = u
  by_cases hu : u.takeWhile isdigit = []
  · rw [if_pos hu]
    simp
  · rw [if_neg hu]
    exact ⟨Int.le_max_left _ _, by omega⟩

/-- The conversions of a `scanf` format. -/
inductive Directive where
  | space
  | lit (c : Byte)
  | str (width : Option Nat)
  | notIn (c : Byte)
  | int
  deriving DecidableEq, Repr

/-- The strings a format converts before its first failure, in order. -/
def sscanf : List Directive → Bytes → List Bytes
  | [], _ => []
  | .space :: fmt, s => sscanf fmt (s.dropWhile isspace)
  | .lit c :: fmt, s => if s.head? = some c then sscanf fmt s.tail else []
  | .str width :: fmt, s =>
    let t := s.dropWhile isspace
    let word := t.takeWhile (fun b => !isspace b)
    let tok := match width with
      | some n => word.take n
      | none => word
    if tok = [] then [] else tok :: sscanf fmt (t.drop tok.length)
  | .notIn c :: fmt, s =>
    let tok := s.takeWhile (· ≠ c)
    if tok = [] then [] else tok :: sscanf fmt (s.drop tok.length)
  | .int :: fmt, s =>
    let t := s.dropWhile isspace
    let sign := if t.head? = some 43 ∨ t.head? = some 45 then 1 else 0
    let ds := (t.drop sign).takeWhile isdigit
    if ds = [] then [] else t.take (sign + ds.length) :: sscanf fmt (t.drop (sign + ds.length))

theorem sscanf_width (fmt : List Directive) (n : Nat) (s : Bytes) :
    sscanf (.str (some n) :: fmt) s = [] ∨
      ∃ tok rest, tok.length ≤ n ∧ sscanf (.str (some n) :: fmt) s = tok :: sscanf fmt rest := by
  rw [sscanf]
  split
  · exact .inl rfl
  · exact .inr ⟨_, _, List.length_take_le _ _, rfl⟩

def afterWord (s : Bytes) : Bytes := (s.dropWhile isspace).dropWhile fun b => !isspace b

theorem length_afterWord_lt {s : Bytes} (h : s.dropWhile isspace ≠ []) :
    (afterWord s).length < s.length := by
  have hle := List.length_dropWhile_le isspace s
  have hhead := List.head_dropWhile_not isspace h
  unfold afterWord
  revert hle hhead
  generalize s.dropWhile isspace = t at h ⊢
  intro hle hhead
  cases t with
  | nil => exact absurd rfl h
  | cons b t =>
    have hb : isspace b = false := by simpa using hhead
    have hlt := List.length_dropWhile_le (fun b => !isspace b) t
    simp only [List.dropWhile_cons, hb, Bool.not_false, ↓reduceIte]
    simp only [List.length_cons] at hle
    omega

/-- The maximal runs of bytes that are not white space. -/
def words (s : Bytes) : List Bytes :=
  if _h : s.dropWhile isspace = [] then []
  else (s.dropWhile isspace).takeWhile (fun b => !isspace b) :: words (afterWord s)
termination_by s.length
decreasing_by exact length_afterWord_lt _h

theorem words_of_blank {s : Bytes} (h : s.dropWhile isspace = []) : words s = [] := by
  rw [words]
  simp [h]

theorem words_of_not_blank {s : Bytes} (h : s.dropWhile isspace ≠ []) :
    words s = (s.dropWhile isspace).takeWhile (fun b => !isspace b) :: words (afterWord s) := by
  rw [words]
  simp [h]

theorem words_afterWord (s : Bytes) : words (afterWord s) = (words s).tail := by
  by_cases h : s.dropWhile isspace = []
  · rw [words_of_blank h, afterWord, h, words_of_blank (by simp)]
    rfl
  · rw [words_of_not_blank h, List.tail_cons]

theorem mem_words {s w : Bytes} (h : w ∈ words s) :
    w ≠ [] ∧ ∀ b ∈ w, isspace b = false ∧ b ∈ s := by
  induction hn : s.length using Nat.strong_induction_on generalizing s with
  | _ n ih =>
  by_cases hs : s.dropWhile isspace = []
  · simp [words_of_blank hs] at h
  · rw [words_of_not_blank hs] at h
    rcases List.mem_cons.mp h with rfl | h
    · have hhead := List.head_dropWhile_not isspace hs
      refine ⟨fun he => ?_, fun b hb => ⟨?_, ?_⟩⟩
      · obtain ⟨b, t, ht⟩ := List.exists_cons_of_ne_nil hs
        simp only [ht, List.head_cons] at hhead
        simp [ht, hhead] at he
      · simpa using List.mem_takeWhile_imp hb
      · exact List.dropWhile_subset isspace (List.takeWhile_subset _ hb)
    · obtain ⟨hne, hb⟩ := ih _ (hn ▸ length_afterWord_lt hs) h rfl
      refine ⟨hne, fun b hbw => ⟨(hb b hbw).1, ?_⟩⟩
      exact List.dropWhile_subset isspace (List.dropWhile_subset _ (hb b hbw).2)

theorem sscanf_space_str (fmt : List Directive) (width : Option Nat) (s : Bytes) :
    sscanf (.space :: .str width :: fmt) s = sscanf (.str width :: fmt) s := by
  simp only [sscanf, List.dropWhile_idempotent]

theorem sscanf_str (fmt : List Directive) (s : Bytes) :
    sscanf (.str none :: fmt) s =
      match words s with
      | [] => []
      | w :: _ => w :: sscanf fmt (afterWord s) := by
  by_cases h : s.dropWhile isspace = []
  · simp [sscanf, words_of_blank h, h]
  · have hw : (s.dropWhile isspace).takeWhile (fun b => !isspace b) ≠ [] := by
      have hmem := words_of_not_blank h
      exact (mem_words (s := s) (by rw [hmem]; exact List.mem_cons_self)).1
    simp only [sscanf, words_of_not_blank h, if_neg hw, afterWord]
    congr 2
    exact drop_length_takeWhile _ _

theorem words_blank_append {a : Bytes} (ha : ∀ b ∈ a, isspace b = true) (u : Bytes) :
    words (a ++ u) = words u := by
  have hdrop : (a ++ u).dropWhile isspace = u.dropWhile isspace := List.dropWhile_append_of_pos ha
  by_cases h : u.dropWhile isspace = []
  · rw [words_of_blank h, words_of_blank (hdrop.trans h)]
  · have h' : (a ++ u).dropWhile isspace ≠ [] := hdrop ▸ h
    rw [words_of_not_blank h, words_of_not_blank h', afterWord, hdrop, ← afterWord]

theorem words_append {a u : Bytes} (ha : a ≠ []) (hword : ∀ b ∈ a, isspace b = false)
    (hu : ∀ b ∈ u.head?, isspace b = true) : words (a ++ u) = a :: words u := by
  have hfront : (a ++ u).dropWhile isspace = a ++ u := by
    cases a with
    | nil => exact absurd rfl ha
    | cons b a => simp [hword b List.mem_cons_self]
  have hstop : ∀ b ∈ u.head?, (!isspace b) = false := fun b hb => by rw [hu b hb]; rfl
  have hgo : ∀ b ∈ a, (!isspace b) = true := fun b hb => by rw [hword b hb]; rfl
  rw [words_of_not_blank (by simp [hfront, ha]), afterWord, hfront,
    takeWhile_append_stop hgo hstop, dropWhile_append_stop hgo hstop]

theorem sscanf_str_width (fmt : List Directive) {s w : Bytes} {ws : List Bytes} (n : Nat)
    (h : words s = w :: ws) : ∃ rest, ws.length ≤ (words rest).length ∧
      sscanf (.str (some (n + 1)) :: fmt) s = w.take (n + 1) :: sscanf fmt rest := by
  have hs : s.dropWhile isspace ≠ [] := by
    intro hblank
    rw [words_of_blank hblank] at h
    cases h
  have hmem := mem_words (s := s) (w := w) (by rw [h]; exact List.mem_cons_self)
  rw [words_of_not_blank hs] at h
  obtain ⟨hw, hws⟩ := List.cons.inj h
  have ht : s.dropWhile isspace = w ++ afterWord s := by
    rw [← hw, afterWord, List.takeWhile_append_dropWhile]
  have hafter : ∀ b ∈ (afterWord s).head?, isspace b = true := by
    intro b hb
    have hstop := List.head?_dropWhile_not (fun b => !isspace b) (s.dropWhile isspace)
    rw [← afterWord, Option.mem_def.mp hb] at hstop
    simpa using hstop
  have htok : w.take (n + 1) ≠ [] := by simp [hmem.1]
  refine ⟨w.drop (n + 1) ++ afterWord s, ?_, ?_⟩
  · by_cases hend : w.drop (n + 1) = []
    · rw [hend, List.nil_append, hws]
    · have hword : ∀ b ∈ w.drop (n + 1), isspace b = false :=
        fun b hb => (hmem.2 b (List.drop_subset _ _ hb)).1
      rw [words_append hend hword hafter, hws]
      exact Nat.le_succ _
  · have hcut : w ++ afterWord s = w.take (n + 1) ++ (w.drop (n + 1) ++ afterWord s) := by
      rw [← List.append_assoc, List.take_append_drop]
    simp only [sscanf]
    rw [hw, if_neg htok, ht, hcut, List.drop_left]

def lines (s : Bytes) : List Bytes :=
  match _h : strstr s [13, 10] with
  | none => if s = [] then [] else [s]
  | some n => s.take n :: lines (s.drop (n + 2))
termination_by s.length
decreasing_by
  have := strstr_end_le (by decide) _h
  simp only [List.length_cons, List.length_nil, List.length_drop] at *
  omega

theorem lines_of_none {s : Bytes} (h : strstr s [13, 10] = none) :
    lines s = if s = [] then [] else [s] := by
  rw [lines]
  split
  · rfl
  · simp_all

theorem lines_of_some {s : Bytes} {n : Nat} (h : strstr s [13, 10] = some n) :
    lines s = s.take n :: lines (s.drop (n + 2)) := by
  rw [lines]
  split <;> simp_all

/-- A line with something in it. -/
def IsLine (l : Bytes) : Prop := l ≠ [] ∧ ¬ [13, 10] <:+: l

theorem IsLine.of_notMem {l : Bytes} (hl : l ≠ []) (hcr : 13 ∉ l) : IsLine l :=
  ⟨hl, fun h => hcr (h.subset List.mem_cons_self)⟩

theorem lines_singleton {l : Bytes} (h : IsLine l) : lines l = [l] := by
  rw [lines_of_none (strstr_eq_none_iff.mpr h.2), if_neg h.1]

theorem lines_cons {l : Bytes} (h : IsLine l) (s : Bytes) :
    lines (l ++ 13 :: 10 :: s) = l :: lines s := by
  have hsome : strstr (l ++ 13 :: 10 :: s) [13, 10] = some l.length := by
    have hhere : strstr (13 :: 10 :: s) [13, 10] = some 0 := strstr_eq_zero ⟨s, rfl⟩
    rw [strstr_append_of_absent (by decide) h.2, hhere, Option.map_some, Nat.zero_add]
  rw [lines_of_some hsome, List.take_left]
  congr 2
  rw [← List.drop_drop, List.drop_left]
  rfl

theorem subset_of_mem_lines {s l : Bytes} (h : l ∈ lines s) : l ⊆ s := by
  induction hn : s.length using Nat.strong_induction_on generalizing s with
  | _ n ih =>
  cases hs : strstr s [13, 10] with
  | none =>
    rw [lines_of_none hs] at h
    split at h
    · simp at h
    · simp [List.mem_singleton.mp h]
  | some i =>
    have hle := strstr_end_le (by decide) hs
    simp only [List.length_cons, List.length_nil] at hle
    rw [lines_of_some hs] at h
    rcases List.mem_cons.mp h with rfl | h
    · exact List.take_subset _ _
    · have hlt : (s.drop (i + 2)).length < n := by
        rw [List.length_drop]
        omega
      exact List.Subset.trans (ih _ hlt h rfl) (List.drop_subset _ _)

end CString
