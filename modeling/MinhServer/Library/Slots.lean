import Mathlib.Algebra.Order.Ring.Int
import Mathlib.Data.Finset.Card
import Mathlib.Data.Finset.Image
import Mathlib.Data.Fintype.Card
import Mathlib.Tactic.Common

namespace Slots
variable {ι α : Type*}

/-- No value is in two slots. -/
def Distinct (used : α → Prop) (f : ι → α) : Prop := ∀ i j, used (f i) → f i = f j → i = j

/-- Writing a value that no other slot holds. -/
theorem Distinct.put [DecidableEq ι] {used : α → Prop} {f : ι → α} {i : ι} {v : α}
    (h : Distinct used f) (hv : ∀ j, j ≠ i → f j ≠ v) : Distinct used (Function.update f i v) := by
  intro j k hj hjk
  by_cases hji : j = i <;> by_cases hki : k = i
  · rw [hji, hki]
  · subst hji
    rw [Function.update_self, Function.update_of_ne hki] at hjk
    exact absurd hjk.symm (hv k hki)
  · subst hki
    rw [Function.update_self, Function.update_of_ne hji] at hjk
    exact absurd hjk (hv j hji)
  · rw [Function.update_of_ne hji] at hj hjk
    rw [Function.update_of_ne hki] at hjk
    exact h j k hj hjk

theorem Distinct.clear [DecidableEq ι] {used : α → Prop} {f : ι → α} {i : ι} {v : α}
    (hv : ¬ used v) (h : Distinct used f) : Distinct used (Function.update f i v) := by
  intro j k hj hjk
  have hji : j ≠ i := by
    rintro rfl
    rw [Function.update_self] at hj
    exact hv hj
  have hki : k ≠ i := by
    rintro rfl
    rw [hjk, Function.update_self] at hj
    exact hv hj
  rw [Function.update_of_ne hji] at hj hjk
  rw [Function.update_of_ne hki] at hjk
  exact h j k hj hjk

section Loop
variable {σ β γ ε : Type*} [DecidableEq ι] {step : σ → ι → Except ε σ} (I : σ → Prop)
  (table : σ → ι → β) (entry : ι → β → β) (log : σ → List γ) (notes : ι → β → List γ)

/-- A loop whose rounds each rewrite their own slot and add to a log. Every slot is rewritten once,
from what it held before the loop. -/
theorem rewrite_each
    (hstep : ∀ s i t, I s → step s i = .ok t → I t ∧
      table t = Function.update (table s) i (entry i (table s i)) ∧
      log t = log s ++ notes i (table s i))
    {l : List ι} (hl : l.Nodup) {s t : σ} (hs : I s) (h : l.foldlM step s = .ok t) :
    I t ∧ (∀ i, table t i = if i ∈ l then entry i (table s i) else table s i) ∧
      log t = log s ++ l.flatMap fun i => notes i (table s i) := by
  induction l generalizing s with
  | nil =>
    obtain rfl : s = t := Except.ok.inj h
    exact ⟨hs, fun i => (if_neg List.not_mem_nil).symm, (List.append_nil _).symm⟩
  | cons j l ih =>
    obtain ⟨hj, hl⟩ := List.nodup_cons.mp hl
    rw [List.foldlM_cons] at h
    cases hround : step s j with
    | error e =>
      rw [hround] at h
      cases h
    | ok u =>
      rw [hround] at h
      obtain ⟨hu, htable, hlog⟩ := hstep s j u hs hround
      obtain ⟨ht, hentries, hnotes⟩ := ih hl hu h
      -- the first round leaves the slots of the others alone, so they start from the same entries
      have hlater : ∀ i ∈ l, table u i = table s i := by
        intro i hi
        have hne : i ≠ j := fun heq => hj (heq ▸ hi)
        rw [htable, Function.update_of_ne hne]
      refine ⟨ht, fun i => ?_, ?_⟩
      · rw [hentries]
        by_cases hij : i = j
        · subst hij
          rw [if_neg hj, if_pos List.mem_cons_self, htable, Function.update_self]
        · by_cases hi : i ∈ l
          · rw [if_pos hi, if_pos (List.mem_cons_of_mem j hi), hlater i hi]
          · have hout : i ∉ j :: l := fun hmem => (List.mem_cons.mp hmem).elim hij hi
            rw [if_neg hi, if_neg hout, htable, Function.update_of_ne hij]
      · have hrest : (l.flatMap fun i => notes i (table u i)) =
            l.flatMap fun i => notes i (table s i) :=
          List.flatMap_congr fun i hi => congrArg (notes i) (hlater i hi)
        rw [hnotes, hrest, hlog, List.flatMap_cons, List.append_assoc]

end Loop

variable [Fintype ι] (used : α → Prop) [DecidablePred used]

def occupied (f : ι → α) : Finset ι := Finset.univ.filter fun i => used (f i)

def held [DecidableEq α] (f : ι → α) : Finset α := (occupied used f).image f

variable {used} {f : ι → α} {i : ι} {a v : α}

@[simp] theorem mem_occupied : i ∈ occupied used f ↔ used (f i) := by simp [occupied]

theorem exists_free (h : (occupied used f).card < Fintype.card ι) : ∃ i, ¬ used (f i) := by
  by_contra hall
  have hfull : occupied used f = Finset.univ := by
    ext i
    simp only [mem_occupied, Finset.mem_univ, iff_true]
    by_contra hi
    exact hall ⟨i, hi⟩
  rw [hfull, Finset.card_univ] at h
  exact lt_irrefl _ h

theorem mem_held [DecidableEq α] : a ∈ held used f ↔ used a ∧ ∃ i, f i = a := by
  simp only [held, Finset.mem_image, mem_occupied]
  constructor
  · rintro ⟨i, hi, rfl⟩
    exact ⟨hi, i, rfl⟩
  · rintro ⟨ha, i, rfl⟩
    exact ⟨i, ha, rfl⟩

theorem held_of_used [DecidableEq α] (h : used (f i)) : f i ∈ held used f := mem_held.mpr ⟨h, i, rfl⟩

theorem card_held [DecidableEq α] (h : Distinct used f) :
    (held used f).card = (occupied used f).card := by
  apply Finset.card_image_of_injOn
  intro i hi j _ hij
  exact h i j (mem_occupied.mp hi) hij

variable [DecidableEq ι]

section Put
variable (hfree : ¬ used (f i)) (hv : used v)
include hfree hv

theorem occupied_put : occupied used (Function.update f i v) = insert i (occupied used f) := by
  ext j
  by_cases hj : j = i
  · subst hj
    simp [hv]
  · simp [hj]

theorem card_occupied_put :
    (occupied used (Function.update f i v)).card = (occupied used f).card + 1 := by
  rw [occupied_put hfree hv, Finset.card_insert_of_notMem (by simpa using hfree)]

theorem held_put [DecidableEq α] : held used (Function.update f i v) = insert v (held used f) := by
  ext a
  simp only [Finset.mem_insert, mem_held]
  constructor
  · rintro ⟨ha, j, rfl⟩
    by_cases hj : j = i
    · subst hj
      exact .inl (Function.update_self ..)
    · rw [Function.update_of_ne hj] at ha ⊢
      exact .inr ⟨ha, j, rfl⟩
  · rintro (rfl | ⟨ha, j, rfl⟩)
    · exact ⟨hv, i, Function.update_self ..⟩
    · have hj : j ≠ i := fun h => hfree (h ▸ ha)
      exact ⟨ha, j, Function.update_of_ne hj ..⟩

end Put

section Clear
variable (hv : ¬ used v)
include hv

theorem occupied_clear : occupied used (Function.update f i v) = (occupied used f).erase i := by
  ext j
  by_cases hj : j = i
  · subst hj
    simp [hv]
  · simp [hj]

theorem card_occupied_clear (hi : used (f i)) :
    (occupied used (Function.update f i v)).card + 1 = (occupied used f).card := by
  rw [occupied_clear hv, Finset.card_erase_add_one (by simpa using hi)]

theorem held_clear [DecidableEq α] (h : Distinct used f) :
    held used (Function.update f i v) = (held used f).erase (f i) := by
  ext a
  simp only [Finset.mem_erase, mem_held]
  constructor
  · rintro ⟨ha, j, rfl⟩
    have hj : j ≠ i := by
      rintro rfl
      rw [Function.update_self] at ha
      exact hv ha
    rw [Function.update_of_ne hj] at ha ⊢
    exact ⟨fun heq => hj (h j i ha heq), ha, j, rfl⟩
  · rintro ⟨hne, ha, j, rfl⟩
    have hj : j ≠ i := fun heq => hne (heq ▸ rfl)
    exact ⟨ha, j, Function.update_of_ne hj ..⟩

end Clear
end Slots
