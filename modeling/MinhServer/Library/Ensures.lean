import Mathlib.Tactic.Common

/-- Whatever `x` returns has `I`, and whatever it fails with has `Q`. -/
structure Ensures {ε α : Type*} (I : α → Prop) (Q : ε → Prop) (x : Except ε α) : Prop where
  ok : ∀ a, x = .ok a → I a
  error : ∀ e, x = .error e → Q e

namespace Ensures
variable {ε α β γ : Type*} {I : α → Prop} {J : β → Prop} {Q : ε → Prop}

theorem pure {a : α} (h : I a) : Ensures I Q (.ok a) where
  ok := by
    intro b hb
    exact Except.ok.inj hb ▸ h
  error := by
    intro e he
    cases he

theorem fail {e : ε} (h : Q e) : Ensures I Q (.error e) where
  ok := by
    intro b hb
    cases hb
  error := by
    intro e' he
    exact Except.error.inj he ▸ h

theorem bind {x : Except ε α} {f : α → Except ε β} (hx : Ensures I Q x)
    (hf : ∀ a, I a → Ensures J Q (f a)) : Ensures J Q (x.bind f) := by
  cases x with
  | error e => exact fail (hx.error e rfl)
  | ok a => exact hf a (hx.ok a rfl)

/-- The rule for a loop whose body keeps an invariant. -/
theorem foldlM {f : α → γ → Except ε α} (hf : ∀ a c, I a → Ensures I Q (f a c)) (l : List γ)
    {a : α} (ha : I a) : Ensures I Q (l.foldlM f a) := by
  induction l generalizing a with
  | nil => exact pure ha
  | cons c l ih =>
    rw [List.foldlM_cons]
    exact (hf a c ha).bind fun b hb => ih hb

theorem of_foldlM {f : α → γ → Except ε α} (hf : ∀ a c b, I a → f a c = .ok b → I b) {l : List γ}
    {a b : α} (ha : I a) (h : l.foldlM f a = .ok b) : I b := by
  have hbody : ∀ a c, I a → Ensures I (fun _ => True) (f a c) := by
    intro a c ha
    exact ⟨fun b hb => hf a c b ha hb, fun _ _ => trivial⟩
  exact (foldlM hbody l ha).ok b h

end Ensures

/-- `y` fails as `x` does, with the error that `f` makes of the one of `x`, or both return and the
values are related. -/
inductive Mirrors {ε ε' α β : Type*} (f : ε → ε') (R : α → β → Prop) :
    Except ε α → Except ε' β → Prop
  | ok {a b} (h : R a b) : Mirrors f R (.ok a) (.ok b)
  | error (e) : Mirrors f R (.error e) (.error (f e))

namespace Mirrors
variable {ε ε' α β α' β' : Type*} {f : ε → ε'} {R : α → β → Prop} {S : α' → β' → Prop}
  {x : Except ε α} {y : Except ε' β}

theorem bind {g : α → Except ε α'} {g' : β → Except ε' β'} (h : Mirrors f R x y)
    (hg : ∀ a b, R a b → Mirrors f S (g a) (g' b)) : Mirrors f S (x.bind g) (y.bind g') := by
  cases h with
  | ok hab => exact hg _ _ hab
  | error e => exact .error e

theorem bind_right {T : α → β' → Prop} {g' : β → Except ε' β'} (h : Mirrors f R x y)
    (hg : ∀ a b, R a b → Mirrors f T (.ok a) (g' b)) : Mirrors f T x (y.bind g') := by
  cases h with
  | ok hab => exact hg _ _ hab
  | error e => exact .error e

/-- The value is one that `x` returns. -/
theorem with_eq (h : Mirrors f R x y) : Mirrors f (fun a b => x = .ok a ∧ R a b) x y := by
  cases h with
  | ok hab => exact .ok ⟨rfl, hab⟩
  | error e => exact .error e

theorem mono {R' : α → β → Prop} (h : Mirrors f R x y) (hR : ∀ a b, R a b → R' a b) :
    Mirrors f R' x y := by
  cases h with
  | ok hab => exact .ok (hR _ _ hab)
  | error e => exact .error e

theorem mapError (x : Except ε α) : Mirrors f Eq x (x.mapError f) := by
  cases x with
  | ok a => exact .ok rfl
  | error e => exact .error e

theorem exists_ok {a : α} (h : Mirrors f R (.ok a) y) : ∃ b, y = .ok b ∧ R a b := by
  cases h with
  | ok hab => exact ⟨_, rfl, hab⟩

theorem eq_error {e : ε} (h : Mirrors f R (.error e) y) : y = .error (f e) := by
  cases h with
  | error => rfl

theorem ok_right {b : β} (h : Mirrors f R x (.ok b)) : ∃ a, x = .ok a ∧ R a b := by
  cases h with
  | ok hab => exact ⟨_, rfl, hab⟩

theorem ne_error {e' : ε'} (h : Mirrors f R x y) (he : ∀ e, f e ≠ e') : y ≠ .error e' := by
  cases h with
  | ok hab =>
    intro heq
    cases heq
  | error e => exact fun heq => he e (Except.error.inj heq)

theorem toOption_map {g : β → α} (h : Mirrors f R x y) (hg : ∀ a b, R a b → g b = a) :
    y.toOption.map g = x.toOption := by
  cases h with
  | ok hab => exact congrArg some (hg _ _ hab)
  | error e => rfl

theorem of_toOption {b : β} (h : y.toOption = some b) : y = .ok b := by
  cases y with
  | ok a => exact congrArg _ (Option.some.inj h)
  | error e => cases h

theorem foldlM {γ : Type*} {g : α → γ → Except ε α} {g' : β → γ → Except ε' β}
    (hg : ∀ a b c, R a b → Mirrors f R (g a c) (g' b c)) {a : α} {b : β} (hab : R a b)
    (l : List γ) : Mirrors f R (l.foldlM g a) (l.foldlM g' b) := by
  induction l generalizing a b with
  | nil => exact .ok hab
  | cons c l ih =>
    rw [List.foldlM_cons, List.foldlM_cons]
    exact (hg a b c hab).bind fun _ _ h => ih h

end Mirrors
