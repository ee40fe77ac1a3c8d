import MinhServer.Master.Table

namespace MinhServer.Master
open Slots

/-- The pid that was found in the table and is signalled next. -/
def MainPc.aimed (pids : Fin maxProcess → Nat) : MainPc → Option Nat
  | .killLoad i => some (pids i)
  | .killSend _ p => some p
  | _ => none

def ShutPc.aimed (pids : Fin maxProcess → Nat) : ShutPc → Option Nat
  | .load i => some (pids i)
  | .send _ p => some p
  | .flag | .test _ => none

def Frame.aimed (pids : Fin maxProcess → Nat) : Frame → Option Nat
  | .chld _ => none
  | .shut _ pc => pc.aimed pids

def State.Aimed (s : State) (p : Nat) : Prop :=
  s.main.aimed s.pids = some p ∨ ∃ f ∈ s.frames, f.aimed s.pids = some p

def Frame.held : Frame → Option Nat
  | .chld pc => pc.held
  | .shut _ _ => none

/-- In the last `waitpid` loop or past it. -/
def MainPc.last : MainPc → Bool
  | .reap _ | .done => true
  | _ => false

/-- The handler is about to restart a worker. -/
def ChldPc.restarting : ChldPc → Bool
  | .restartPid _ _ | .restartFlag _ _ | .restartSleep _ _ | .restartFork _ _ => true
  | _ => false

/-- The steps that do not leave a reaped worker in the table while it is used. -/
def Orderly (s : State) : Act → Prop
  -- no shutdown between the `waitpid` of a worker in the table and the write of its slot, nor
  -- after the last loop, which does not write, reaped a worker of the table
  | .deliver sig => sig.isStop →
      (∀ f ∈ s.frames, ∀ p ∈ f.held, ∀ i, s.pids i ≠ p) ∧
      (s.main.last → ∀ i, s.pids i ≠ 0 → s.pids i ∈ s.children.pids)
  -- only the forks of the spawn loop fail
  | .forkFail => s.frames = []
  -- no handler reaps a worker that is not stored yet or is about to be signalled
  | .reap p => s.frames ≠ [] → s.main.inFlight ≠ some p ∧ s.main.aimed s.pids ≠ some p ∧
      ∀ f ∈ s.frames, f.aimed s.pids ≠ some p
  | _ => True

instance (s : State) : (act : Act) → Decidable (Orderly s act)
  | .deliver sig => inferInstanceAs (Decidable (sig.isStop →
      (∀ f ∈ s.frames, ∀ p ∈ f.held, ∀ i, s.pids i ≠ p) ∧
      (s.main.last → ∀ i, s.pids i ≠ 0 → s.pids i ∈ s.children.pids)))
  | .forkFail => inferInstanceAs (Decidable (s.frames = []))
  | .reap p => inferInstanceAs (Decidable (s.frames ≠ [] → s.main.inFlight ≠ some p ∧
      s.main.aimed s.pids ≠ some p ∧ ∀ f ∈ s.frames, f.aimed s.pids ≠ some p))
  | .tick | .fork _ | .reapNone | .die _ _ => inferInstanceAs (Decidable True)

/-- Every `kill` so far was sent to a child that was not reaped. -/
def KillsChildren (s : State) : Prop := ∀ p sig b, .killed p sig b ∈ s.log → b = true

/-- The last loop runs, and no shutdown. -/
def State.Ending (s : State) : Prop := s.main.last ∧ ∀ sig pc, .shut sig pc ∉ s.frames

/-- The pid of a child, or of the worker that a handler reaped. -/
def State.Accounted (s : State) (p : Nat) : Prop :=
  p ∈ s.children.pids ∨ (∃ f ∈ s.frames, f.held = some p) ∨ s.Ending

structure Accurate (s : State) : Prop where
  slot : ∀ i, s.pids i ≠ 0 → s.Accounted (s.pids i)
  distinct : Distinct (· ≠ 0) s.pids
  mainInFlight : ∀ p, s.main.inFlight = some p → p ∈ s.children.pids ∧ ∀ i, s.pids i ≠ p
  chldInFlight : ∀ pc, .chld pc ∈ s.frames → ∀ p, pc.inFlight = some p →
    p ∈ s.children.pids ∧ s.main.inFlight ≠ some p ∧ ∀ i, pc.slot ≠ some i → s.pids i ≠ p
  aimed : ∀ p, s.Aimed p → p ∈ s.children.pids
  scanned : ∀ p status (n : Nat), .chld (.scan p status n) ∈ s.frames →
    ∀ i : Fin maxProcess, (i : Nat) < n → s.pids i ≠ p
  restarting : ∀ pc, .chld pc ∈ s.frames → pc.restarting → s.running = true
  /-- The handler that reaped a worker of the table is not interrupted. -/
  foremost : ∀ pc, .chld pc ∈ s.frames → ∀ p i, pc.held = some p → s.pids i = p →
    ∃ below, s.frames = .chld pc :: below
  kills : KillsChildren s

section Facts
variable {s : State}

theorem MainPc.aimed_interrupt (pids : Fin maxProcess → Nat) (pc : MainPc) :
    pc.interrupt.aimed pids = pc.aimed pids := by
  cases pc <;> rfl

theorem MainPc.last_of_next {pids : Fin maxProcess → Nat} {running : Bool} {pc pc' : MainPc}
    (h : pc.next pids running = some pc') : pc.last = false := by
  cases pc <;> first | rfl | cases h

theorem MainPc.stopping_of_last {pc : MainPc} (h : pc.last) : pc.stopping := by
  cases pc <;> first | rfl | cases h

theorem Tabled.held_below (hT : Tabled s) {pc : ChldPc} {below : List Frame}
    (top : s.frames = .chld pc :: below) {f : Frame} (hf : f ∈ below) : f.held = none := by
  cases f with
  | chld pc' => exact absurd hf (hT.chld_below top)
  | shut sig pc' => rfl

theorem Accurate.slot_of_idle (h : Accurate s) (idle : s.frames = []) (hlast : s.main.last = false)
    {i : Fin maxProcess} (hi : s.pids i ≠ 0) : s.pids i ∈ s.children.pids := by
  rcases h.slot i hi with hmem | ⟨f, hf, -⟩ | hl
  · exact hmem
  · exact absurd hf (notMem_of_idle idle f)
  · cases hlast.symm.trans hl.1

theorem Accurate.slot_of_shut (h : Accurate s) {sig : Signal} {pc : ShutPc} {below : List Frame}
    (top : s.frames = .shut sig pc :: below) {i : Fin maxProcess} (hi : s.pids i ≠ 0) :
    s.pids i ∈ s.children.pids := by
  rcases h.slot i hi with hmem | ⟨f, hf, hheld⟩ | hl
  · exact hmem
  · cases f with
    | chld pc' =>
      obtain ⟨below', heq⟩ := h.foremost pc' hf _ i hheld rfl
      rw [top] at heq
      cases heq
    | shut sig' pc' => cases hheld
  · exact absurd (mem_of_top top) (hl.2 sig pc)

theorem Accurate.slot_of_chld (hT : Tabled s) (h : Accurate s) {pc : ChldPc} {below : List Frame}
    (top : s.frames = .chld pc :: below) {i : Fin maxProcess} (hi : s.pids i ≠ 0) :
    s.pids i ∈ s.children.pids ∨ pc.held = some (s.pids i) ∨ s.Ending := by
  rcases h.slot i hi with hmem | ⟨f, hf, hheld⟩ | hl
  · exact .inl hmem
  · rw [top] at hf
    rcases List.mem_cons.mp hf with rfl | hf
    · exact .inr (.inl hheld)
    · rw [hT.held_below top hf] at hheld
      cases hheld
  · exact .inr (.inr hl)

theorem Accurate.ne_held (hT : Tabled s) (h : Accurate s) {pc : ChldPc} {below : List Frame}
    (top : s.frames = .chld pc :: below) {p : Nat} {i j : Fin maxProcess}
    (hp : pc.held = some p) (hi : pc.slot = some i) (hj : j ≠ i) : s.pids j ≠ p := by
  intro heq
  have hknows := hT.chld_top top
  have hslot := hknows.slot p i hp hi
  exact hj (h.distinct j i (heq ▸ hknows.ne_zero p hp) (heq.trans hslot.symm))

/-- A handler goes back to `waitpid` only when the worker it reaped is not in the table. -/
theorem Accurate.next_held (hT : Tabled s) (h : Accurate s) {pc pc' : ChldPc}
    {below : List Frame} (top : s.frames = .chld pc :: below)
    (next : pc.next s.pids s.running = some pc') {p : Nat} (hp : pc.held = some p) :
    pc'.held = some p ∨ ∀ i, s.pids i ≠ p := by
  have hmem : .chld pc ∈ s.frames := mem_of_top top
  have hknows := hT.chld_top top
  cases pc <;> simp only [ChldPc.next] at next <;> try contradiction
  case scan q status n =>
    cases hp
    split at next
    · split at next <;> cases next <;> exact .inl rfl
    -- the scan has come to the end of the table without it
    · next hlast =>
      refine .inr fun i => h.scanned p status n hmem i ?_
      exact lt_of_lt_of_le i.isLt (not_lt.mp hlast)
  case found q status i =>
    split at next <;> cases next <;> exact .inl hp
  case restartPid q i =>
    -- the slot still holds the reaped pid, so the restart goes on
    have hpos : 0 < s.pids i := by
      rw [hknows.slot p i hp rfl]
      exact Nat.pos_of_ne_zero (hknows.ne_zero p hp)
    rw [if_pos hpos] at next
    cases next
    exact .inl hp
  case restartFlag q i =>
    rw [if_pos (h.restarting _ hmem rfl)] at next
    cases next
    exact .inl hp
  case restartSleep q i =>
    cases next
    exact .inl hp

end Facts

section Steps
variable {s t : State} {act : Act}

theorem State.Ending.of_chld (h : s.Ending) {pc pc' : ChldPc} {below : List Frame}
    (top : s.frames = .chld pc :: below) (hmain : t.main = s.main)
    (hframes : t.frames = .chld pc' :: below) : t.Ending := by
  refine ⟨hmain ▸ h.1, fun sig pc'' hmem => ?_⟩
  rw [hframes] at hmem
  exact h.2 sig pc'' (shut_mem_of_chld top hmem)

/-- The handler of SIGCHLD goes on: of a slot it is enough to say what becomes of its child, or of
the worker that was reaped from it. -/
theorem Accurate.accounted_next {pc pc' : ChldPc} {below : List Frame} {i : Fin maxProcess}
    (hT : Tabled s) (h : Accurate s) (top : s.frames = .chld pc :: below)
    (hmain : t.main = s.main) (hframes : t.frames = .chld pc' :: below) (hi : s.pids i ≠ 0)
    (hchild : s.pids i ∈ s.children.pids → t.Accounted (s.pids i))
    (hheld : pc.held = some (s.pids i) → t.Accounted (s.pids i)) : t.Accounted (s.pids i) := by
  rcases h.slot_of_chld hT top hi with hmem | heq | hl
  · exact hchild hmem
  · exact hheld heq
  · exact .inr (.inr (hl.of_chld top hmain hframes))

theorem slot_deliver (h : Accurate s) {sig : Signal} (ho : Orderly s (.deliver sig))
    (hs : Step s (.deliver sig) t) {i : Fin maxProcess} (hi : s.pids i ≠ 0) :
    t.Accounted (s.pids i) := by
  cases hs with
  | chldArrives =>
    refine (h.slot i hi).imp_right (Or.imp ?_ ?_)
    · rintro ⟨f, hf, hheld⟩
      exact ⟨f, List.mem_cons_of_mem _ hf, hheld⟩
    · refine fun hl => ⟨hl.1, fun sig pc hmem => ?_⟩
      exact hl.2 sig pc ((List.mem_cons.mp hmem).resolve_left nofun)
  | stopArrives stop =>
    rcases h.slot i hi with hmem | ⟨f, hf, hheld⟩ | hl
    · exact .inl hmem
    · exact .inr (.inl ⟨f, List.mem_cons_of_mem _ hf, hheld⟩)
    · exact .inl ((ho stop).2 hl.1 i hi)

theorem slot_update_accounted {i j : Fin maxProcess} {p : Nat} (hp : t.Accounted p)
    (hother : ∀ i, i ≠ j → s.pids i ≠ 0 → t.Accounted (s.pids i))
    (hi : Function.update s.pids j p i ≠ 0) : t.Accounted (Function.update s.pids j p i) := by
  by_cases hij : i = j
  · subst hij
    rwa [Function.update_self]
  · rw [Function.update_of_ne hij] at hi ⊢
    exact hother i hij hi

theorem slot_step (hT : Tabled s) (h : Accurate s) (ho : Orderly s act) (hs : Step s act t) :
    ∀ i, t.pids i ≠ 0 → t.Accounted (t.pids i) := by
  intro i hi
  cases hs with
  | die died =>
    unfold State.Accounted
    rw [show State.children _ = _ from rfl, (Children.die_spec died).1]
    exact h.slot i hi
  | chldArrives unblocked => exact slot_deliver h ho (.chldArrives unblocked) hi
  | stopArrives stop unblocked => exact slot_deliver h ho (.stopArrives stop unblocked) hi
  | mainMove idle next =>
    exact .inl (h.slot_of_idle idle (MainPc.last_of_next next) hi)
  | mainFork idle main forked =>
    exact .inl (Children.mem_fork forked (h.slot_of_idle idle (main ▸ rfl) hi))
  | mainForkFail idle main | mainKill idle main =>
    exact .inl (h.slot_of_idle idle (main ▸ rfl) hi)
  | mainStore idle main =>
    exact slot_update_accounted (.inl (h.mainInFlight _ (main ▸ rfl)).1)
      (fun j _ hj => .inl (h.slot_of_idle idle (main ▸ rfl) hj)) hi
  | mainReap idle | mainDone idle =>
    exact .inr (.inr ⟨rfl, fun sig pc hmem => notMem_of_idle idle _ hmem⟩)
  | chldMove top next =>
    change State.Accounted _ (s.pids i)
    refine h.accounted_next hT top rfl rfl hi .inl fun hheld => ?_
    rcases h.next_held hT top next hheld with hheld' | hno
    · exact .inr (.inl ⟨_, List.mem_cons_self, hheld'⟩)
    · exact absurd rfl (hno i)
  | @chldReap p status below top ended =>
    change State.Accounted _ (s.pids i)
    refine h.accounted_next hT top rfl rfl hi (fun hmem => ?_) nofun
    by_cases hp : s.pids i = p
    · exact .inr (.inl ⟨_, List.mem_cons_self, congrArg some hp.symm⟩)
    · exact .inl (Finset.mem_erase_of_ne_of_mem hp hmem)
  | chldReturn top =>
    rcases h.slot_of_chld hT top hi with hmem | hheld | hl
    · exact .inl hmem
    · cases hheld
    · exact .inr (.inr ⟨hl.1, fun sig pc hmem => hl.2 sig pc (mem_of_below top hmem)⟩)
  | @chldClear p j below top =>
    have hij : i ≠ j := by
      rintro rfl
      exact hi (Function.update_self ..)
    change Function.update s.pids j 0 i ≠ 0 at hi
    change State.Accounted _ (Function.update s.pids j 0 i)
    rw [Function.update_of_ne hij] at hi ⊢
    exact h.accounted_next hT top rfl rfl hi .inl fun hheld =>
      absurd (Option.some.inj hheld).symm (h.ne_held hT top rfl rfl hij)
  | chldFork top forked =>
    change State.Accounted _ (s.pids i)
    exact h.accounted_next hT top rfl rfl hi (fun hmem => .inl (Children.mem_fork forked hmem))
      fun hheld => .inr (.inl ⟨_, List.mem_cons_self, hheld⟩)
  | chldForkFail top =>
    rw [show s.frames = [] from ho] at top
    cases top
  | chldStore top =>
    refine slot_update_accounted (.inl (h.chldInFlight _ (mem_of_top top) _ rfl).1) ?_ hi
    intro j hj hpos
    exact h.accounted_next hT top rfl rfl hpos .inl fun hheld =>
      absurd (Option.some.inj hheld).symm (h.ne_held hT top rfl rfl hj)
  | shutFlag top | shutMove top | shutSend top | shutReturn top =>
    exact .inl (h.slot_of_shut top hi)

theorem distinct_step (h : Accurate s) (hs : Step s act t) :
    Distinct (· ≠ 0) t.pids := by
  cases hs with
  | @mainStore i p idle main =>
    exact h.distinct.put fun j _ => (h.mainInFlight p (main ▸ rfl)).2 j
  | chldClear top => exact h.distinct.clear (by simp)
  | @chldStore q i p below top =>
    refine h.distinct.put fun j hj => ?_
    have hinFlight := h.chldInFlight _ (mem_of_top top) p rfl
    exact hinFlight.2.2 j fun heq => hj (Option.some.inj heq).symm
  | _ => exact h.distinct

theorem mainInFlight_step (h : Accurate s) (ho : Orderly s act) (hs : Step s act t) :
    ∀ p, t.main.inFlight = some p → p ∈ t.children.pids ∧ ∀ i, t.pids i ≠ p := by
  intro p hp
  cases hs with
  | die died =>
    rw [(Children.die_spec died).1]
    exact h.mainInFlight p hp
  | stopArrives => exact h.mainInFlight p (by simpa using hp)
  | mainMove idle next =>
    cases (MainPc.inFlight_next next).2.symm.trans hp
  | mainFork idle main forked =>
    obtain ⟨hzero, hnew, hpids, -⟩ := Children.fork_spec forked
    cases hp
    refine ⟨?_, fun i heq => hnew ?_⟩
    · rw [hpids]
      exact Finset.mem_insert_self _ _
    -- a fork gives a new pid, and an idle table holds children only
    · change s.pids i = p at heq
      have := h.slot_of_idle idle (main ▸ rfl) (i := i) (heq ▸ hzero)
      exact heq ▸ this
  | mainForkFail | mainStore | mainKill | mainReap | mainDone => cases hp
  | @chldReap q status below top ended =>
    obtain ⟨hmem, hslots⟩ := h.mainInFlight p hp
    -- the handler does not reap what the main process has just forked
    have hne : p ≠ q := fun heq => (ho (top ▸ List.cons_ne_nil _ _)).1 (heq ▸ hp)
    exact ⟨Finset.mem_erase_of_ne_of_mem hne hmem, hslots⟩
  | @chldClear q i below top =>
    obtain ⟨hmem, hslots⟩ := h.mainInFlight p hp
    exact ⟨hmem, (Function.forall_update_iff _ fun _ pid => pid ≠ p).mpr
      ⟨(Children.ne_zero_of_mem hmem).symm, fun j _ => hslots j⟩⟩
  | chldFork top forked =>
    obtain ⟨-, -, hpids, -⟩ := Children.fork_spec forked
    obtain ⟨hmem, hslots⟩ := h.mainInFlight p hp
    refine ⟨?_, hslots⟩
    rw [hpids]
    exact Finset.mem_insert_of_mem hmem
  | @chldStore q i r below top =>
    obtain ⟨hmem, hslots⟩ := h.mainInFlight p hp
    -- the two workers in flight are not the same
    have hinFlight := h.chldInFlight _ (mem_of_top top) r rfl
    exact ⟨hmem, (Function.forall_update_iff _ fun _ pid => pid ≠ p).mpr
      ⟨fun heq => hinFlight.2.1 (heq ▸ hp), fun j _ => hslots j⟩⟩
  | _ => exact h.mainInFlight p hp

theorem chldInFlight_step (hT : Tabled s) (h : Accurate s) (hs : Step s act t) :
    ∀ pc, .chld pc ∈ t.frames → ∀ p, pc.inFlight = some p →
      p ∈ t.children.pids ∧ t.main.inFlight ≠ some p ∧ ∀ i, pc.slot ≠ some i → t.pids i ≠ p := by
  intro pc hpc p hp
  cases hs with
  | die died =>
    rw [(Children.die_spec died).1]
    exact h.chldInFlight pc hpc p hp
  | chldArrives =>
    rcases List.mem_cons.mp hpc with heq | hpc
    · cases heq
      cases hp
    · exact h.chldInFlight pc hpc p hp
  | stopArrives =>
    rcases List.mem_cons.mp hpc with heq | hpc
    · cases heq
    · simpa using h.chldInFlight pc hpc p hp
  | mainMove idle | mainFork idle | mainForkFail idle | mainStore idle | mainKill idle
  | mainReap idle | mainDone idle =>
    exact absurd hpc (notMem_of_idle idle _)
  | chldMove top next =>
    cases hT.chld_replaced top hpc
    cases (ChldPc.inFlight_next next).2.symm.trans hp
  | chldReap top | chldClear top | chldForkFail top | chldStore top =>
    cases hT.chld_replaced top hpc
    cases hp
  | chldReturn top => exact absurd hpc (hT.chld_below top)
  | @chldFork q j p' c below top forked =>
    cases hT.chld_replaced top hpc
    cases hp
    obtain ⟨hzero, hnew, hpids, -⟩ := Children.fork_spec forked
    refine ⟨?_, fun hmain => hnew (h.mainInFlight p hmain).1, fun i hi heq => ?_⟩
    · rw [hpids]
      exact Finset.mem_insert_self _ _
    -- every other slot holds a child, or zero, or belongs to the last wait
    · change s.pids i = p at heq
      have hij : i ≠ j := fun hij => hi (congrArg some hij.symm)
      rcases h.slot_of_chld hT top (i := i) (heq ▸ hzero) with hmem | hheld | hl
      · exact hnew (heq ▸ hmem)
      · exact h.ne_held hT top rfl rfl hij (Option.some.inj hheld).symm
      · have hstop := hT.stopping (MainPc.stopping_of_last hl.1)
        rw [h.restarting _ (mem_of_top top) rfl] at hstop
        cases hstop
  | shutFlag top | shutMove top | shutSend top =>
    exact h.chldInFlight pc (chld_mem_of_shut top hpc) p hp
  | shutReturn top => exact h.chldInFlight pc (mem_of_below top hpc) p hp

theorem MainPc.aimed_update {pids : Fin maxProcess → Nat} {i : Fin maxProcess} {v p : Nat}
    {pc : MainPc} (h : pc.aimed (Function.update pids i v) = some p) :
    pc.aimed pids = some p ∨ p = v ∧ pc.aimed pids = some (pids i) := by
  cases pc with
  | killLoad j =>
    by_cases hj : j = i
    · subst hj
      simp only [aimed, Function.update_self, Option.some.injEq] at h
      exact .inr ⟨h.symm, rfl⟩
    · simp only [aimed, Function.update_of_ne hj] at h
      exact .inl h
  | killSend j q => exact .inl h
  | _ => cases h

theorem Frame.aimed_update {pids : Fin maxProcess → Nat} {i : Fin maxProcess} {v p : Nat}
    {f : Frame} (h : f.aimed (Function.update pids i v) = some p) :
    f.aimed pids = some p ∨ p = v ∧ f.aimed pids = some (pids i) := by
  cases f with
  | chld pc => cases h
  | shut sig pc =>
    cases pc with
    | load j =>
      by_cases hj : j = i
      · subst hj
        simp only [aimed, ShutPc.aimed, Function.update_self, Option.some.injEq] at h
        exact .inr ⟨h.symm, rfl⟩
      · simp only [aimed, ShutPc.aimed, Function.update_of_ne hj] at h
        exact .inl h
    | send j q => exact .inl h
    | flag | test => cases h

theorem MainPc.aimed_next {pids : Fin maxProcess → Nat} {running : Bool} {pc pc' : MainPc}
    {p : Nat} (h : pc.next pids running = some pc') (hp : pc'.aimed pids = some p) :
    pc.aimed pids = some p ∨ ∃ i, pids i ≠ 0 ∧ p = pids i := by
  cases pc <;> simp only [MainPc.next] at h <;> try contradiction
  case killTest n =>
    split at h
    · split at h
      · next hpos =>
        cases h
        cases hp
        exact .inr ⟨_, hpos.ne', rfl⟩
      · cases h
        cases hp
    · cases h
      cases hp
  case killLoad i =>
    cases h
    exact .inl hp
  all_goals (repeat' split at h) <;> cases h <;> cases hp

theorem ShutPc.aimed_next {pids : Fin maxProcess → Nat} {pc pc' : ShutPc} {p : Nat}
    (h : pc.next pids = some pc') (hp : pc'.aimed pids = some p) :
    pc.aimed pids = some p ∨ ∃ i, pids i ≠ 0 ∧ p = pids i := by
  cases pc <;> simp only [ShutPc.next] at h <;> try contradiction
  case test n =>
    split at h
    · split at h
      · next hpos =>
        cases h
        cases hp
        exact .inr ⟨_, hpos.ne', rfl⟩
      · cases h
        cases hp
    · cases h
  case load i =>
    cases h
    exact .inl hp

theorem State.Aimed.of_idle {p : Nat} (h : s.Aimed p) (idle : s.frames = []) :
    s.main.aimed s.pids = some p := by
  rcases h with h | ⟨f, hf, -⟩
  · exact h
  · exact absurd hf (notMem_of_idle idle f)

/-- Only the running handler comes to aim at another pid. -/
theorem State.Aimed.of_top {p : Nat} {f f' : Frame} {below : List Frame}
    (top : s.frames = f :: below) (h : (s.handler f' below).Aimed p) :
    s.Aimed p ∨ f'.aimed s.pids = some p := by
  rcases h with h | ⟨g, hg, hgp⟩
  · exact .inl (.inl h)
  · rcases List.mem_cons.mp hg with rfl | hg
    · exact .inr hgp
    · exact .inl (.inr ⟨g, mem_of_below top hg, hgp⟩)

theorem State.Aimed.of_setPid {p v : Nat} {i : Fin maxProcess} (h : (s.setPid i v).Aimed p) :
    s.Aimed p ∨ p = v ∧ s.Aimed (s.pids i) := by
  rcases h with h | ⟨f, hf, h⟩
  · exact (MainPc.aimed_update h).imp .inl (And.imp_right .inl)
  · exact (Frame.aimed_update h).imp (fun h => .inr ⟨f, hf, h⟩)
      (And.imp_right fun h => .inr ⟨f, hf, h⟩)

theorem State.Aimed.of_arrives {p : Nat} {f : Frame} {pc : MainPc} (hf : f.aimed s.pids = none)
    (hpc : pc.aimed s.pids = s.main.aimed s.pids)
    (h : ({ s with frames := f :: s.frames, main := pc } : State).Aimed p) : s.Aimed p := by
  rcases h with h | ⟨g, hg, hgp⟩
  · exact .inl (hpc.symm.trans h)
  · rcases List.mem_cons.mp hg with rfl | hg
    · cases hf.symm.trans hgp
    · exact .inr ⟨g, hg, hgp⟩

theorem State.Aimed.of_returns {p : Nat} {f : Frame} {below : List Frame}
    (top : s.frames = f :: below) (h : (s.handlerReturns below).Aimed p) : s.Aimed p := by
  rcases h with h | ⟨g, hg, hgp⟩
  · exact .inl h
  · exact .inr ⟨g, mem_of_below top hg, hgp⟩

theorem aimed_chldReap (h : Accurate s) {p q : Nat} (ho : Orderly s (.reap q))
    (hframes : s.frames ≠ []) (hp : s.Aimed p) : p ∈ s.children.pids.erase q := by
  obtain ⟨-, hmain, hothers⟩ := ho hframes
  have hne : p ≠ q := by
    rintro rfl
    rcases hp with haimed | ⟨f, hf, haimed⟩
    · exact hmain haimed
    · exact hothers f hf haimed
  exact Finset.mem_erase_of_ne_of_mem hne (h.aimed p hp)

theorem aimed_step (hT : Tabled s) (h : Accurate s) (ho : Orderly s act) (hs : Step s act t) :
    ∀ p, t.Aimed p → p ∈ t.children.pids := by
  intro p hp
  cases hs with
  | die died =>
    rw [(Children.die_spec died).1]
    exact h.aimed p hp
  | chldArrives => exact h.aimed p (.of_arrives rfl rfl hp)
  | stopArrives => exact h.aimed p (.of_arrives rfl (MainPc.aimed_interrupt _ _) hp)
  | mainMove idle next =>
    rcases MainPc.aimed_next next (hp.of_idle idle) with hold | ⟨i, hi, rfl⟩
    · exact h.aimed p (.inl hold)
    · exact h.slot_of_idle idle (MainPc.last_of_next next) hi
  | mainFork idle | mainForkFail idle | mainStore idle | mainKill idle | mainReap idle
  | mainDone idle => cases hp.of_idle idle
  | chldMove top | chldForkFail top | shutFlag top | shutSend top =>
    exact (State.Aimed.of_top top hp).elim (h.aimed p) nofun
  | chldReap top =>
    exact aimed_chldReap h ho (top ▸ List.cons_ne_nil _ _)
      ((State.Aimed.of_top top hp).resolve_right nofun)
  | @chldClear q i below top =>
    have hp' := (State.Aimed.of_top (s := s.setPid i 0) top hp).resolve_right nofun
    rcases hp'.of_setPid with hold | ⟨-, haimed⟩
    · exact h.aimed p hold
    · -- the slot that is cleared holds a reaped worker
      exact absurd rfl (hT.slot_ne top rfl rfl (h.aimed _ haimed) nofun)
  | chldFork top forked =>
    exact Children.mem_fork forked (h.aimed p ((State.Aimed.of_top top hp).resolve_right nofun))
  | @chldStore q i r below top =>
    have hp' := (State.Aimed.of_top (s := s.setPid i r) top hp).resolve_right nofun
    rcases hp'.of_setPid with hold | ⟨rfl, -⟩
    · exact h.aimed p hold
    · exact (h.chldInFlight _ (mem_of_top top) p rfl).1
  | @shutMove sig pc pc' below top next =>
    rcases State.Aimed.of_top top hp with hold | hnew
    · exact h.aimed p hold
    · rcases ShutPc.aimed_next next hnew with hold | ⟨i, hi, rfl⟩
      · exact h.aimed p (.inr ⟨.shut sig pc, mem_of_top top, hold⟩)
      · exact h.slot_of_shut top hi
  | chldReturn top | shutReturn top => exact h.aimed p (hp.of_returns top)

theorem ChldPc.scan_of_next {pids : Fin maxProcess → Nat} {running : Bool} {pc : ChldPc} {p : Nat}
    {status : Status} {n : Nat} (h : pc.next pids running = some (.scan p status n)) :
    ∃ m, n = m + 1 ∧ ∃ hm : m < maxProcess, pc = .scan p status m ∧ pids ⟨m, hm⟩ ≠ p := by
  cases pc <;> simp only [ChldPc.next] at h <;> try contradiction
  case scan q status' m =>
    split at h
    · next hm =>
      split at h
      · cases h
      · next hne =>
        cases h
        exact ⟨m, rfl, hm, rfl, hne⟩
    · cases h
  all_goals (repeat' split at h) <;> cases h

theorem scanned_step (hT : Tabled s) (h : Accurate s) (hs : Step s act t) :
    ∀ p status (n : Nat), .chld (.scan p status n) ∈ t.frames →
      ∀ i : Fin maxProcess, (i : Nat) < n → t.pids i ≠ p := by
  intro p status n hpc i hi
  cases hs with
  | chldArrives | stopArrives =>
    rcases List.mem_cons.mp hpc with heq | hpc
    · cases heq
    · exact h.scanned p status n hpc i hi
  | mainStore idle =>
    exact absurd hpc (notMem_of_idle idle _)
  | @chldMove pc pc' below top next =>
    cases hT.chld_replaced top hpc
    obtain ⟨m, rfl, hm, hold, hne⟩ := ChldPc.scan_of_next next
    -- the slot just compared is behind the scan as well
    rcases Nat.lt_succ_iff_lt_or_eq.mp hi with hlt | heq
    · exact h.scanned p status m (hold ▸ mem_of_top top) i hlt
    · have hslot : i = ⟨m, hm⟩ := Fin.ext heq
      rw [hslot]
      exact hne
  | chldReap top =>
    cases hT.chld_replaced top hpc
    exact absurd hi (Nat.not_lt_zero _)
  | chldClear top | chldFork top | chldForkFail top | chldStore top =>
    cases hT.chld_replaced top hpc
  | chldReturn top => exact absurd hpc (hT.chld_below top)
  | shutFlag top | shutMove top | shutSend top =>
    exact h.scanned p status n (chld_mem_of_shut top hpc) i hi
  | shutReturn top => exact h.scanned p status n (mem_of_below top hpc) i hi
  | _ => exact h.scanned p status n hpc i hi

theorem ChldPc.restarting_next {pids : Fin maxProcess → Nat} {running : Bool} {pc pc' : ChldPc}
    (h : pc.next pids running = some pc') (hpc : pc.restarting → running = true) :
    pc'.restarting → running = true := by
  cases pc <;> simp only [ChldPc.next] at h <;> try contradiction
  case scan p status n =>
    intro hrestarting
    (repeat' split at h) <;> cases h <;> cases hrestarting
  case found p status i =>
    split at h
    · next hcond =>
      cases h
      exact fun _ => hcond.2
    · cases h
      intro hrestarting
      cases hrestarting
  all_goals exact fun _ => hpc rfl

theorem restarting_step (hT : Tabled s) (h : Accurate s) (hs : Step s act t) :
    ∀ pc, .chld pc ∈ t.frames → pc.restarting → t.running = true := by
  intro pc hpc hrestarting
  cases hs with
  | chldArrives | stopArrives =>
    rcases List.mem_cons.mp hpc with heq | hpc
    · cases heq <;> cases hrestarting
    · exact h.restarting pc hpc hrestarting
  | chldMove top next =>
    cases hT.chld_replaced top hpc
    exact ChldPc.restarting_next next (h.restarting _ (mem_of_top top)) hrestarting
  | chldReap top | chldClear top | chldFork top | chldForkFail top | chldStore top =>
    cases hT.chld_replaced top hpc
    cases hrestarting
  | chldReturn top => exact absurd hpc (hT.chld_below top)
  | @shutFlag sig below top =>
    -- a handler about to restart has a worker of the table, so it is the running one
    exfalso
    have hmem : .chld pc ∈ s.frames := chld_mem_of_shut top hpc
    have hknows := hT.chld pc hmem
    obtain ⟨p, i, hp, hi⟩ : ∃ p i, pc.held = some p ∧ pc.slot = some i := by
      cases pc <;> first | exact ⟨_, _, rfl, rfl⟩ | cases hrestarting
    obtain ⟨below', heq⟩ := h.foremost pc hmem p i hp (hknows.slot p i hp hi)
    rw [top] at heq
    cases heq
  | shutMove top | shutSend top =>
    exact h.restarting pc (chld_mem_of_shut top hpc) hrestarting
  | shutReturn top => exact h.restarting pc (mem_of_below top hpc) hrestarting
  | _ => exact h.restarting pc hpc hrestarting

theorem foremost_step (hT : Tabled s) (h : Accurate s) (ho : Orderly s act) (hs : Step s act t) :
    ∀ pc, .chld pc ∈ t.frames → ∀ p i, pc.held = some p → t.pids i = p →
      ∃ below, t.frames = .chld pc :: below := by
  intro pc hpc p i hp hi
  cases hs with
  | chldArrives unblocked =>
    rcases List.mem_cons.mp hpc with heq | hpc
    · cases heq
      exact ⟨_, rfl⟩
    · exact absurd rfl (unblocked _ hpc)
  | stopArrives stop =>
    rcases List.mem_cons.mp hpc with heq | hpc
    · cases heq
    -- a stop signal does not arrive while a handler holds a pid of the table
    · exact absurd hi ((ho stop).1 _ hpc p hp i)
  | mainStore idle =>
    exact absurd hpc (notMem_of_idle idle _)
  | chldMove top | chldReap top | chldClear top | chldFork top | chldForkFail top
  | chldStore top =>
    cases hT.chld_replaced top hpc
    exact ⟨_, rfl⟩
  | chldReturn top => exact absurd hpc (hT.chld_below top)
  | shutFlag top | shutMove top | shutSend top =>
    obtain ⟨below', heq⟩ := h.foremost pc (chld_mem_of_shut top hpc) p i hp hi
    rw [top] at heq
    cases heq
  | shutReturn top =>
    obtain ⟨below', heq⟩ := h.foremost pc (mem_of_below top hpc) p i hp hi
    rw [top] at heq
    cases heq
  | _ => exact h.foremost pc hpc p i hp hi

theorem kills_step (h : Accurate s) (hs : Step s act t) : KillsChildren t := by
  intro p sig b hmem
  cases hs with
  | mainKill idle main =>
    rcases List.mem_cons.mp hmem with heq | hmem
    · cases heq
      exact decide_eq_true (h.aimed _ (.inl (main ▸ rfl)))
    · exact h.kills p sig b hmem
  | shutSend top =>
    rcases List.mem_cons.mp hmem with heq | hmem
    · cases heq
      exact decide_eq_true (h.aimed _ (.inr ⟨_, mem_of_top top, rfl⟩))
    · exact h.kills p sig b hmem
  | mainFork | chldFork | shutFlag =>
    rcases List.mem_cons.mp hmem with heq | hmem
    · cases heq
    · exact h.kills p sig b hmem
  | _ => exact h.kills p sig b hmem

theorem Accurate.step (hT : Tabled s) (h : Accurate s) (ho : Orderly s act)
    (hs : Step s act t) : Accurate t where
  slot := slot_step hT h ho hs
  distinct := distinct_step h hs
  mainInFlight := mainInFlight_step h ho hs
  chldInFlight := chldInFlight_step hT h hs
  aimed := aimed_step hT h ho hs
  scanned := scanned_step hT h hs
  restarting := restarting_step hT h hs
  foremost := foremost_step hT h ho hs
  kills := kills_step h hs

end Steps

theorem accurate_start : Accurate .start where
  slot := fun _ hi => absurd rfl hi
  distinct := fun _ _ hi _ => absurd rfl hi
  mainInFlight := nofun
  chldInFlight := nofun
  aimed := by
    rintro p (hp | ⟨f, hf, -⟩)
    · cases hp
    · cases hf
  scanned := nofun
  restarting := nofun
  foremost := nofun
  kills := nofun

/-- In a run of orderly steps every `kill` of the master reaches a child it has not reaped. -/
theorem kills_reach_children {s : State} (h : machine.ReachableBy Orderly s) :
    KillsChildren s := by
  have hinv : machine.Invariant Orderly fun s => Tabled s ∧ Accurate s :=
    (tabled_invariant Orderly).with (by rintro s rfl; exact accurate_start)
      fun _ _ _ hT h ho next => h.step hT ho (step_cases next)
  exact (hinv.holds h).2.kills

/-- The spawn loop: four workers are forked and stored. -/
def spawned : List Act :=
  [.fork 101, .tick, .fork 102, .tick, .fork 103, .tick, .fork 104, .tick, .tick]

/-- SIGTERM while the server runs: the first worker is signalled. -/
theorem kills_reach_children_term :
    ∃ s, s.log.head? = some (.killed 101 .term true) ∧ KillsChildren s := by
  have hrun : (machine.run Orderly .start
      (spawned ++ [.deliver .term, .tick, .tick, .tick, .tick])).map (·.log.head?) =
        some (some (.killed 101 .term true)) := by decide +kernel
  obtain ⟨s, hs, hlog⟩ := Option.map_eq_some_iff.mp hrun
  exact ⟨s, hlog, kills_reach_children (Machine.ReachableBy.run (.init rfl) hs)⟩

/-- A worker crashed, and SIGTERM comes during the two seconds before its restart: its pid is
still in the table. -/
theorem restarting_worker_signalled : ¬ ∀ s, machine.Reachable s → KillsChildren s := by
  intro h
  have hrun : (machine.run (fun _ _ => True) .start
      (spawned ++ [.die 101 (.exited 1), .deliver .chld, .reap 101, .tick, .tick, .tick, .tick,
        .deliver .term, .tick, .tick, .tick, .tick])).map (·.log.head?) =
          some (some (.killed 101 .term false)) := by decide +kernel
  obtain ⟨s, hs, hlog⟩ := Option.map_eq_some_iff.mp hrun
  have hkills := h s (Machine.ReachableBy.run (.init rfl) hs)
  have hmem : .killed 101 .term false ∈ s.log := List.mem_of_mem_head? hlog
  cases hkills _ _ _ hmem

end MinhServer.Master
