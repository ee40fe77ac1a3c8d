import Mathlib.Algebra.BigOperators.Group.List.Basic
import MinhServer.Library.Machine

namespace Machine
variable {σ ε : Type*} {M : Machine σ ε} {P : σ → ε → Prop} [∀ s e, Decidable (P s e)]
  {I : σ → Prop} {quantity : σ → ℕ} {takes adds : ε → ℕ} {s t : σ} {es : List ε}

theorem run_budget
    (step : ∀ s e t, I s → P s e → M.step s e = some t →
      I t ∧ quantity t + takes e ≤ quantity s + adds e)
    (hs : I s) (h : M.run P s es = some t) :
    I t ∧ quantity t + (es.map takes).sum ≤ quantity s + (es.map adds).sum := by
  induction es generalizing s with
  | nil =>
    obtain rfl : s = t := by simpa [Machine.run] using h
    exact ⟨hs, le_rfl⟩
  | cons e es ih =>
    rw [Machine.run] at h
    split at h
    · next meets =>
      obtain ⟨u, next, hrun⟩ := Option.bind_eq_some_iff.mp h
      obtain ⟨hu, hstep⟩ := step s e u hs meets next
      obtain ⟨ht, hrest⟩ := ih hu hrun
      refine ⟨ht, ?_⟩
      rw [List.map_cons, List.map_cons, List.sum_cons, List.sum_cons]
      omega
    · cases h

theorem run_conserves
    (step : ∀ s e t, I s → P s e → M.step s e = some t →
      I t ∧ quantity t + takes e = quantity s + adds e)
    (hs : I s) (h : M.run P s es = some t) :
    quantity t + (es.map takes).sum = quantity s + (es.map adds).sum := by
  induction es generalizing s with
  | nil =>
    obtain rfl : s = t := by simpa [Machine.run] using h
    rfl
  | cons e es ih =>
    rw [Machine.run] at h
    split at h
    · next meets =>
      obtain ⟨u, next, hrun⟩ := Option.bind_eq_some_iff.mp h
      obtain ⟨hu, hstep⟩ := step s e u hs meets next
      have hrest := ih hu hrun
      rw [List.map_cons, List.map_cons, List.sum_cons, List.sum_cons]
      omega
    · cases h

end Machine
