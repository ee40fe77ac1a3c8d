import Mathlib.Data.List.Infix

namespace Replay
variable {τ α : Type*} {apply : τ → α → Option τ} {log log' log'' : List α} {s t u : τ}

/-- The state after the events of a log, if each of them could happen. -/
def replay (apply : τ → α → Option τ) (s : τ) (log : List α) : Option τ := log.foldlM apply s

/-- The log grew to `log'`, and its new events lead from `s` to `t`. -/
def Leads (apply : τ → α → Option τ) (log : List α) (s : τ) (log' : List α) (t : τ) : Prop :=
  ∃ new, log' = log ++ new ∧ replay apply s new = some t

theorem replay_append (log new : List α) :
    replay apply s (log ++ new) = (replay apply s log).bind fun t => replay apply t new :=
  List.foldlM_append

theorem Leads.refl (log : List α) (s : τ) : Leads apply log s log s :=
  ⟨[], (List.append_nil log).symm, rfl⟩

theorem Leads.trans (h : Leads apply log s log' t) (h' : Leads apply log' t log'' u) :
    Leads apply log s log'' u := by
  obtain ⟨new, rfl, hnew⟩ := h
  obtain ⟨new', rfl, hnew'⟩ := h'
  refine ⟨new ++ new', List.append_assoc _ _ _, ?_⟩
  rw [replay_append, hnew, Option.bind_some, hnew']

theorem Leads.event {e : α} (h : apply s e = some t) : Leads apply log s (log ++ [e]) t := by
  refine ⟨[e], rfl, ?_⟩
  rw [replay, List.foldlM_cons, h]
  rfl

theorem Leads.replay_eq {start : τ} (h : Leads apply log s log' t)
    (hlog : replay apply start log = some s) : replay apply start log' = some t := by
  obtain ⟨new, rfl, hnew⟩ := h
  rw [replay_append, hlog, Option.bind_some, hnew]

theorem replay_invariant {start : τ} (P : List α → τ → Prop) (init : P [] start)
    (step : ∀ log s e t, P log s → apply s e = some t → P (log ++ [e]) t)
    (h : replay apply start log = some t) : P log t := by
  induction log using List.reverseRecOn generalizing t with
  | nil =>
    obtain rfl : start = t := Option.some.inj h
    exact init
  | append_singleton log e ih =>
    rw [replay_append] at h
    obtain ⟨s, hs, he⟩ := Option.bind_eq_some_iff.mp h
    refine step log s e t (ih hs) ?_
    rw [replay, List.foldlM_cons] at he
    obtain ⟨u, hu, heq⟩ := Option.bind_eq_some_iff.mp he
    rwa [← Option.some.inj heq]

theorem forall_mem_of_replay {D : τ → Prop} {Q : α → Prop}
    (step : ∀ s e t, D s → apply s e = some t → Q e ∧ D t) (hs : D s)
    (h : replay apply s log = some t) : ∀ e ∈ log, Q e := by
  induction log generalizing s with
  | nil => exact List.forall_mem_nil _
  | cons e log ih =>
    rw [replay, List.foldlM_cons] at h
    obtain ⟨u, hu, hrest⟩ := Option.bind_eq_some_iff.mp h
    obtain ⟨he, hD⟩ := step s e u hs hu
    exact List.forall_mem_cons.mpr ⟨he, ih hD hrest⟩

end Replay
