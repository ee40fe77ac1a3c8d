import Mathlib.Algebra.Order.Ring.Int
import Mathlib.Tactic.Common
import MinhServer.Library.Ensures

/-- A machine; an event that cannot happen in a state has no next state. -/
structure Machine (σ ε : Type*) where
  init : σ → Prop
  step : σ → ε → Option σ

namespace Machine
variable {σ ε : Type*}

/-- The states reached by runs whose steps all meet `P`. -/
inductive ReachableBy (M : Machine σ ε) (P : σ → ε → Prop) : σ → Prop where
  | init {s} (start : M.init s) : ReachableBy M P s
  | step {s e t} (before : ReachableBy M P s) (meets : P s e) (next : M.step s e = some t) :
      ReachableBy M P t

def Reachable (M : Machine σ ε) : σ → Prop := M.ReachableBy fun _ _ => True

/-- `I` holds at the start, and steps that meet `P` keep it. -/
structure Invariant (M : Machine σ ε) (P : σ → ε → Prop) (I : σ → Prop) : Prop where
  init : ∀ s, M.init s → I s
  step : ∀ s e t, I s → P s e → M.step s e = some t → I t

def startingAt (M : Machine σ ε) (s : σ) : Machine σ ε := { M with init := fun t => t = s }

variable {M : Machine σ ε} {P : σ → ε → Prop} {I J : σ → Prop}

theorem Invariant.holds (h : M.Invariant P I) {s : σ} (hs : M.ReachableBy P s) : I s := by
  induction hs with
  | init start => exact h.init _ start
  | step _ meets next ih => exact h.step _ _ _ ih meets next

/-- An invariant may be used to prove the next one. -/
theorem Invariant.with (h : M.Invariant P I) (init : ∀ s, M.init s → J s)
    (step : ∀ s e t, I s → J s → P s e → M.step s e = some t → J t) :
    M.Invariant P fun s => I s ∧ J s where
  init s start := ⟨h.init s start, init s start⟩
  step s e t before meets next :=
    ⟨h.step s e t before.1 meets next, step s e t before.1 before.2 meets next⟩

theorem ReachableBy.reachable {s : σ} (h : M.ReachableBy P s) : M.Reachable s := by
  induction h with
  | init start => exact .init start
  | step _ _ next ih => exact .step ih trivial next

theorem ReachableBy.append {s t u : σ} (h : (M.startingAt s).ReachableBy P t)
    (hu : (M.startingAt t).ReachableBy P u) : (M.startingAt s).ReachableBy P u := by
  induction hu with
  | init start =>
    cases start
    exact h
  | step _ meets next ih => exact .step ih meets next

theorem ReachableBy.of_startingAt {s t : σ} (hs : M.ReachableBy P s)
    (h : (M.startingAt s).ReachableBy P t) : M.ReachableBy P t := by
  induction h with
  | init start =>
    cases start
    exact hs
  | step _ meets next ih => exact .step ih meets next

/-- The state after the events, as long as every step meets `P`. -/
def run (M : Machine σ ε) (P : σ → ε → Prop) [∀ s e, Decidable (P s e)] :
    σ → List ε → Option σ
  | s, [] => some s
  | s, e :: es => if P s e then (M.step s e).bind fun t => M.run P t es else none

theorem ReachableBy.run [∀ s e, Decidable (P s e)] {s t : σ} {es : List ε}
    (hs : M.ReachableBy P s) (h : M.run P s es = some t) : M.ReachableBy P t := by
  induction es generalizing s with
  | nil =>
    obtain rfl : s = t := by simpa [Machine.run] using h
    exact hs
  | cons e es ih =>
    rw [Machine.run] at h
    split at h
    · next meets =>
      obtain ⟨u, next, hrun⟩ := Option.bind_eq_some_iff.mp h
      exact ih (.step hs meets next) hrun
    · cases h

section Carry
variable {κ α : Type*} {M' : Machine (σ × κ) ε} {label : σ → ε → List α}
  {R : List α → κ → κ → Prop}

/-- Where `I` holds `M'` goes the way of `M`, and `R` tells what becomes of the thing it carries in
a step with these labels. -/
structure Carries (M : Machine σ ε) (M' : Machine (σ × κ) ε) (I : σ → Prop)
    (label : σ → ε → List α) (R : List α → κ → κ → Prop) : Prop where
  init : ∀ s k, M'.init (s, k) → I s
  same : ∀ s k e, I s → (M'.step (s, k) e).map Prod.fst = M.step s e
  told : ∀ s k e t k', I s → M'.step (s, k) e = some (t, k') → I t ∧ R (label s e) k k'

theorem Carries.reachable (h : M.Carries M' I label R) {s : σ} {k : κ} (hs : M'.Reachable (s, k)) :
    I s := by
  have hinvariant : M'.Invariant (fun _ _ => True) fun sk => I sk.1 :=
    ⟨fun sk start => h.init sk.1 sk.2 start,
      fun sk e tk before _ next => (h.told sk.1 sk.2 e tk.1 tk.2 before next).1⟩
  exact hinvariant.holds hs

theorem Carries.of_mirrors {δ δ' : Type*} (f : δ → δ') {allowed : σ → ε → Prop}
    [∀ s e, Decidable (allowed s e)] {call : σ → ε → Except δ σ}
    {call' : σ × κ → ε → Except δ' (σ × κ)}
    (hstep : ∀ s e, M.step s e = if allowed s e then (call s e).toOption else none)
    (hstep' : ∀ sk e, M'.step sk e = if allowed sk.1 e then (call' sk e).toOption else none)
    (hinit : ∀ s k, M'.init (s, k) → I s)
    (hcall : ∀ s k e, I s → allowed s e →
      Mirrors f (fun t result => result.1 = t ∧ I t ∧ R (label s e) k result.2)
        (call s e) (call' (s, k) e)) :
    M.Carries M' I label R where
  init := hinit
  same s k e hs := by
    rw [hstep, hstep']
    by_cases hallowed : allowed s e
    · rw [if_pos hallowed, if_pos hallowed]
      exact (hcall s k e hs hallowed).toOption_map fun t result hresult => hresult.1
    · rw [if_neg hallowed, if_neg hallowed]
      rfl
  told s k e t k' hs hnext := by
    rw [hstep'] at hnext
    split at hnext
    · next hallowed =>
      have hmirrors := hcall s k e hs hallowed
      rw [Mirrors.of_toOption hnext] at hmirrors
      obtain ⟨_, -, rfl, ht, htold⟩ := hmirrors.ok_right
      exact ⟨ht, htold⟩
    · cases hnext

/-- What a run does to the thing it carries is told by the labels of the run. -/
theorem Carries.run (h : M.Carries M' I label R) {labels : σ → List ε → List α}
    (hrefl : ∀ k, R [] k k)
    (htrans : ∀ {l l' k k' k''}, R l k k' → R l' k' k'' → R (l ++ l') k k'')
    (hnil : ∀ s, labels s [] = [])
    (hcons : ∀ s e t es, I s → M.step s e = some t →
      labels s (e :: es) = label s e ++ labels t es)
    {s : σ} (hs : I s) (k : κ) (es : List ε) :
    (M'.run (fun _ _ => True) (s, k) es).map Prod.fst = M.run (fun _ _ => True) s es ∧
      ∀ t k', M'.run (fun _ _ => True) (s, k) es = some (t, k') →
        I t ∧ R (labels s es) k k' := by
  induction es generalizing s k with
  | nil =>
    refine ⟨rfl, ?_⟩
    rintro t k' ⟨⟩
    rw [hnil]
    exact ⟨hs, hrefl k⟩
  | cons e es ih =>
    have hsame := h.same s k e hs
    simp only [Machine.run, if_true]
    cases hstep : M'.step (s, k) e with
    | none =>
      rw [hstep] at hsame
      rw [← hsame]
      refine ⟨rfl, ?_⟩
      rintro t k' ⟨⟩
    | some next =>
      obtain ⟨u, k₁⟩ := next
      rw [hstep] at hsame
      obtain ⟨hu, htold⟩ := h.told s k e u k₁ hs hstep
      obtain ⟨hrest, hend⟩ := ih hu k₁
      rw [← hsame]
      refine ⟨hrest, fun t k' hrun => ?_⟩
      obtain ⟨ht, hlater⟩ := hend t k' hrun
      rw [hcons s e u es hs hsame.symm]
      exact ⟨ht, htrans htold hlater⟩

end Carry

end Machine
