import Mathlib.Combinatorics.Enumerative.DoubleCounting
import MinhServer.Master.Step

namespace MinhServer.Master

/-- The worker that was forked and is not in the table yet. -/
def MainPc.inFlight : MainPc → Option Nat
  | .spawnStore _ p => some p
  | _ => none

/-- Worker `i` is not forked yet, or its pid is not stored. -/
def MainPc.Unspawned (i : Fin maxProcess) : MainPc → Prop
  | .spawn j => j ≤ i
  | .spawnStore j _ => j ≤ i
  | _ => False

def MainPc.stopping : MainPc → Bool
  | .spawn _ | .spawnStore _ _ | .serve => false
  | _ => true

def ChldPc.held : ChldPc → Option Nat
  | .wait => none
  | .scan p _ _ | .found p _ _ | .clear p _ | .restartPid p _ | .restartFlag p _
  | .restartSleep p _ | .restartFork p _ | .restartStore p _ _ => some p

def ChldPc.slot : ChldPc → Option (Fin maxProcess)
  | .wait | .scan _ _ _ => none
  | .found _ _ i | .clear _ i | .restartPid _ i | .restartFlag _ i | .restartSleep _ i
  | .restartFork _ i | .restartStore _ i _ => some i

def ChldPc.inFlight : ChldPc → Option Nat
  | .restartStore _ _ p => some p
  | _ => none

def Frame.inFlight : Frame → Option Nat
  | .chld pc => pc.inFlight
  | .shut _ _ => none

/-- Between the return of `fork` and the store of its pid. -/
def State.InFlight (s : State) (p : Nat) : Prop :=
  s.main.inFlight = some p ∨ ∃ f ∈ s.frames, f.inFlight = some p

def State.Placed (s : State) (p : Nat) : Prop := (∃ i, s.pids i = p) ∨ s.InFlight p

@[simp] theorem MainPc.inFlight_interrupt (pc : MainPc) : pc.interrupt.inFlight = pc.inFlight := by
  cases pc <;> rfl

@[simp] theorem MainPc.unspawned_interrupt (pc : MainPc) (i : Fin maxProcess) :
    pc.interrupt.Unspawned i ↔ pc.Unspawned i := by
  cases pc <;> rfl

@[simp] theorem MainPc.stopping_interrupt (pc : MainPc) : pc.interrupt.stopping = pc.stopping := by
  cases pc <;> rfl

theorem MainPc.stopping_next {pids : Fin maxProcess → Nat} {running : Bool} {pc pc' : MainPc}
    (h : pc.next pids running = some pc') (hpc : pc.stopping → running = false) :
    pc'.stopping → running = false := by
  cases pc <;> simp only [MainPc.next] at h <;> try contradiction
  case spawn i =>
    split at h
    · cases h
    · cases h
      exact hpc
  case serve =>
    cases running with
    | false => exact fun _ => rfl
    | true =>
      cases h
      exact hpc
  all_goals exact fun _ => hpc rfl

theorem MainPc.not_unspawned_next {pids : Fin maxProcess → Nat} {running : Bool}
    {pc pc' : MainPc} (h : pc.next pids running = some pc') (i : Fin maxProcess) :
    ¬ pc'.Unspawned i := by
  cases pc <;> simp only [MainPc.next] at h <;> try contradiction
  all_goals (repeat' split at h) <;> cases h <;> exact id

theorem MainPc.inFlight_next {pids : Fin maxProcess → Nat} {running : Bool}
    {pc pc' : MainPc} (h : pc.next pids running = some pc') :
    pc.inFlight = none ∧ pc'.inFlight = none := by
  cases pc <;> simp only [MainPc.next] at h <;> try contradiction
  all_goals (repeat' split at h) <;> cases h <;> exact ⟨rfl, rfl⟩

theorem ChldPc.inFlight_next {pids : Fin maxProcess → Nat} {running : Bool}
    {pc pc' : ChldPc} (h : pc.next pids running = some pc') :
    pc.inFlight = none ∧ pc'.inFlight = none := by
  cases pc <;> simp only [ChldPc.next] at h <;> try contradiction
  all_goals (repeat' split at h) <;> cases h <;> exact ⟨rfl, rfl⟩

/-- The reaped worker is no child any more, unless its pid came back, and the slot it was
found in still holds it. -/
structure ChldPc.Knows (pc : ChldPc) (pids : Fin maxProcess → Nat) (children : Finset Nat) :
    Prop where
  ne_zero : ∀ p, pc.held = some p → p ≠ 0
  slot : ∀ p i, pc.held = some p → pc.slot = some i → pids i = p
  reaped : ∀ p, pc.held = some p → p ∈ children → pc.inFlight = some p

variable {pids : Fin maxProcess → Nat} {children : Finset Nat}

theorem ChldPc.knows_wait : ChldPc.wait.Knows pids children where
  ne_zero := nofun
  slot := nofun
  reaped := nofun

theorem ChldPc.Knows.next {running : Bool} {pc pc' : ChldPc} (h : pc.Knows pids children)
    (hnext : pc.next pids running = some pc') : pc'.Knows pids children := by
  cases pc <;> simp only [ChldPc.next] at hnext <;> try contradiction
  case scan p status i =>
    split at hnext
    · split at hnext
      · next heq =>
        cases hnext
        refine ⟨h.ne_zero, fun q j hq hj => ?_, h.reaped⟩
        cases hq
        cases hj
        exact heq
      · cases hnext
        exact ⟨h.ne_zero, nofun, h.reaped⟩
    · cases hnext
      exact knows_wait
  all_goals
    (repeat' split at hnext) <;> cases hnext <;>
      first
        | exact knows_wait
        | exact ⟨h.ne_zero, h.slot, h.reaped⟩

structure Tabled (s : State) : Prop where
  signals : (s.frames.map Frame.signal).Nodup
  stopping : s.main.stopping → s.running = false
  unspawned : ∀ i, s.main.Unspawned i → s.pids i = 0
  chld : ∀ pc, .chld pc ∈ s.frames → pc.Knows s.pids s.children.pids
  cover : ∀ p, s.children.isRunning p → (∃ i, s.pids i = p) ∨ s.InFlight p

/-- The handler of SIGCHLD is not interrupted by itself. -/
theorem Tabled.chld_below {s : State} (h : Tabled s) {pc pc' : ChldPc} {below : List Frame}
    (top : s.frames = .chld pc :: below) : .chld pc' ∉ below := by
  have hsig := h.signals
  rw [top, List.map_cons, List.nodup_cons] at hsig
  exact fun hmem => hsig.1 (List.mem_map.mpr ⟨_, hmem, rfl⟩)

theorem Tabled.chld_top {s : State} (h : Tabled s) {pc : ChldPc} {below : List Frame}
    (top : s.frames = .chld pc :: below) : pc.Knows s.pids s.children.pids :=
  h.chld pc (by rw [top]; exact List.mem_cons_self)

section Frames
variable {s : State} {pc pc' pc'' : ChldPc} {sig sig' : Signal} {shut shut' : ShutPc}
  {below : List Frame}

theorem notMem_of_idle (idle : s.frames = []) (f : Frame) : f ∉ s.frames := by
  rw [idle]
  exact List.not_mem_nil

theorem mem_of_below {f g : Frame} (top : s.frames = g :: below) (h : f ∈ below) :
    f ∈ s.frames := by
  rw [top]
  exact List.mem_cons_of_mem g h

theorem mem_of_top {f : Frame} (top : s.frames = f :: below) : f ∈ s.frames := by
  rw [top]
  exact List.mem_cons_self

/-- A handler that goes on replaces the only frame of its signal. -/
theorem Tabled.chld_replaced (h : Tabled s) (top : s.frames = .chld pc :: below)
    (hmem : .chld pc'' ∈ Frame.chld pc' :: below) : pc'' = pc' := by
  rcases List.mem_cons.mp hmem with heq | hmem
  · exact Frame.chld.inj heq
  · exact absurd hmem (h.chld_below top)

theorem chld_mem_of_shut (top : s.frames = .shut sig shut :: below)
    (hmem : .chld pc ∈ Frame.shut sig' shut' :: below) : .chld pc ∈ s.frames :=
  mem_of_below top ((List.mem_cons.mp hmem).resolve_left nofun)

theorem shut_mem_of_chld (top : s.frames = .chld pc :: below)
    (hmem : .shut sig shut ∈ Frame.chld pc' :: below) : .shut sig shut ∈ s.frames :=
  mem_of_below top ((List.mem_cons.mp hmem).resolve_left nofun)

end Frames

section Steps
variable {s t : State} {act : Act}

theorem signals_step (h : Tabled s) (hs : Step s act t) : (t.frames.map Frame.signal).Nodup := by
  have hsig := h.signals
  cases hs with
  | chldArrives unblocked =>
    exact List.nodup_cons.mpr ⟨fun hmem => by
      obtain ⟨f, hf, heq⟩ := List.mem_map.mp hmem
      exact unblocked f hf heq, hsig⟩
  | stopArrives _ unblocked =>
    exact List.nodup_cons.mpr ⟨fun hmem => by
      obtain ⟨f, hf, heq⟩ := List.mem_map.mp hmem
      exact unblocked f hf heq, hsig⟩
  | chldMove top | chldReap top | chldClear top | chldFork top | chldForkFail top | chldStore top
  | shutFlag top | shutMove top | shutSend top =>
    rw [top] at hsig
    exact hsig
  | chldReturn top | shutReturn top =>
    rw [top] at hsig
    exact (List.nodup_cons.mp hsig).2
  | _ => exact hsig

theorem stopping_step (h : Tabled s) (hs : Step s act t) :
    t.main.stopping → t.running = false := by
  have hstop := h.stopping
  cases hs with
  | stopArrives =>
    rw [MainPc.stopping_interrupt]
    exact hstop
  | mainMove _ next => exact MainPc.stopping_next next hstop
  | mainFork | mainForkFail | mainStore => exact nofun
  | mainKill _ main | mainReap _ main | mainDone _ main =>
    rw [main] at hstop
    exact fun _ => hstop rfl
  | shutFlag => exact fun _ => rfl
  | _ => exact hstop

theorem Tabled.update_of_unspawned (h : Tabled s) {pc : ChldPc} {below : List Frame}
    (top : s.frames = .chld pc :: below) {p q : Nat} {i : Fin maxProcess}
    (hp : pc.held = some p) (hi : pc.slot = some i) :
    ∀ j, s.main.Unspawned j → Function.update s.pids i q j = 0 := by
  intro j hj
  have hzero := h.unspawned j hj
  have hknows := h.chld_top top
  have hne : j ≠ i := by
    rintro rfl
    exact hknows.ne_zero p hp (hknows.slot p j hp hi ▸ hzero)
  rw [Function.update_of_ne hne, hzero]

theorem unspawned_step (h : Tabled s) (hs : Step s act t) :
    ∀ i, t.main.Unspawned i → t.pids i = 0 := by
  have hunspawned := h.unspawned
  cases hs with
  | stopArrives => simpa using hunspawned
  | mainMove _ next => exact fun i hi => absurd hi (MainPc.not_unspawned_next next i)
  | mainFork _ main =>
    rw [main] at hunspawned
    exact hunspawned
  | @mainForkFail i _ main =>
    rw [main] at hunspawned
    exact fun j hj => hunspawned j (show (i : Nat) ≤ j from Nat.le_of_succ_le hj)
  | @mainStore i p _ main =>
    rw [main] at hunspawned
    intro j hj
    have hlt : i < j := hj
    show Function.update s.pids i p j = 0
    rw [Function.update_of_ne hlt.ne', hunspawned j hlt.le]
  | mainKill | mainReap | mainDone => exact nofun
  | chldClear top => exact h.update_of_unspawned top rfl rfl
  | chldStore top => exact h.update_of_unspawned top rfl rfl
  | _ => exact hunspawned

theorem chld_step (h : Tabled s) (hs : Step s act t) :
    ∀ pc, .chld pc ∈ t.frames → pc.Knows t.pids t.children.pids := by
  intro pc hmem
  cases hs with
  | die died =>
    rw [(Children.die_spec died).1]
    exact h.chld pc hmem
  | chldArrives =>
    rcases List.mem_cons.mp hmem with heq | hmem
    · cases heq
      exact ChldPc.knows_wait
    · exact h.chld pc hmem
  | stopArrives =>
    rcases List.mem_cons.mp hmem with heq | hmem
    · cases heq
    · exact h.chld pc hmem
  | mainFork idle | mainStore idle | mainReap idle => exact absurd hmem (notMem_of_idle idle _)
  | chldMove top next =>
    cases h.chld_replaced top hmem
    exact (h.chld_top top).next next
  | @chldReap p status below top ended =>
    cases h.chld_replaced top hmem
    refine ⟨fun q hq => ?_, nofun, fun q hq hmem => ?_⟩
    · cases hq
      exact Children.ne_zero_of_mem (Children.mem_of_statusOf ended)
    · cases hq
      exact absurd hmem (Finset.notMem_erase _ _)
  | chldClear top | chldForkFail top | chldStore top =>
    cases h.chld_replaced top hmem
    exact ChldPc.knows_wait
  | @chldFork pid i p c below top forked =>
    cases h.chld_replaced top hmem
    have hknows := h.chld_top top
    -- the new child may have got the reaped pid; nothing else brings that one back
    obtain ⟨-, -, hpids, -⟩ := Children.fork_spec forked
    refine ⟨hknows.ne_zero, hknows.slot, fun q hq hchild => ?_⟩
    cases hq
    rw [hpids, Finset.mem_insert] at hchild
    rcases hchild with rfl | hchild
    · rfl
    · cases hknows.reaped pid rfl hchild
  | chldReturn top => exact absurd hmem (h.chld_below top)
  | shutFlag top | shutMove top | shutSend top => exact h.chld pc (chld_mem_of_shut top hmem)
  | shutReturn top => exact h.chld pc (mem_of_below top hmem)
  | _ => exact h.chld pc hmem

theorem State.InFlight.of_idle {p : Nat} (h : s.InFlight p) (idle : s.frames = []) :
    s.main.inFlight = some p := by
  rcases h with h | ⟨f, hf, -⟩
  · exact h
  · exact absurd hf (notMem_of_idle idle f)

/-- What is in flight stays so while the running handler goes on, itself apart. -/
theorem State.InFlight.of_top {p : Nat} (h : s.InFlight p) {f : Frame} {below : List Frame}
    (top : s.frames = f :: below) (hf : f.inFlight ≠ some p) (hmain : t.main = s.main)
    (hframes : ∀ g ∈ below, g ∈ t.frames) : t.InFlight p := by
  rcases h with h | ⟨g, hg, hgp⟩
  · exact .inl (hmain ▸ h)
  · rw [top] at hg
    rcases List.mem_cons.mp hg with rfl | hg
    · exact absurd hgp hf
    · exact .inr ⟨g, hframes g hg, hgp⟩

theorem State.Placed.of_idle {p : Nat} (h : s.Placed p) (idle : s.frames = [])
    (hmain : s.main.inFlight = none) : ∃ i, s.pids i = p := by
  rcases h with hslot | hflight
  · exact hslot
  · have hheld := hflight.of_idle idle
    rw [hmain] at hheld
    cases hheld

theorem State.Placed.of_top {p : Nat} (h : s.Placed p) {f : Frame} {below : List Frame}
    (top : s.frames = f :: below) (hf : f.inFlight ≠ some p) (hpids : t.pids = s.pids)
    (hmain : t.main = s.main) (hframes : ∀ g ∈ below, g ∈ t.frames) : t.Placed p := by
  refine h.imp ?_ fun hflight => hflight.of_top top hf hmain hframes
  rw [hpids]
  exact id

theorem State.Placed.arrives {p : Nat} (h : s.Placed p) (hpids : t.pids = s.pids)
    (hmain : t.main.inFlight = s.main.inFlight) (hframes : ∀ g ∈ s.frames, g ∈ t.frames) :
    t.Placed p := by
  rcases h with ⟨i, hi⟩ | hheld | ⟨g, hg, hgp⟩
  · exact .inl ⟨i, hpids ▸ hi⟩
  · exact .inr (.inl (hmain.trans hheld))
  · exact .inr (.inr ⟨g, hframes g hg, hgp⟩)

theorem exists_slot_update {pids : Fin maxProcess → Nat} {i : Fin maxProcess} {q : Nat} (v : Nat)
    (hi : pids i ≠ q) (h : ∃ j, pids j = q) : ∃ j, Function.update pids i v j = q := by
  obtain ⟨j, hj⟩ := h
  have hne : j ≠ i := by
    rintro rfl
    exact hi hj
  exact ⟨j, (Function.update_of_ne hne ..).trans hj⟩

theorem placed_mainStore (h : Tabled s) {i : Fin maxProcess} {p q : Nat} (idle : s.frames = [])
    (main : s.main = .spawnStore i p) (hq : q ≠ 0) (hold : s.Placed q) :
    ∃ j, Function.update s.pids i p j = q := by
  rcases hold with hslot | hflight
  · have hzero := h.unspawned i (main ▸ le_refl (i : Nat))
    exact exists_slot_update p (fun heq => hq (heq.symm.trans hzero)) hslot
  · have hp := hflight.of_idle idle
    rw [main] at hp
    cases hp
    exact ⟨i, Function.update_self ..⟩

theorem Tabled.slot_ne (h : Tabled s) {pc : ChldPc} {below : List Frame}
    (top : s.frames = .chld pc :: below) {p q : Nat} {i : Fin maxProcess}
    (hp : pc.held = some p) (hi : pc.slot = some i) (hq : q ∈ s.children.pids)
    (hflight : pc.inFlight ≠ some q) : s.pids i ≠ q := by
  rintro rfl
  have hknows := h.chld_top top
  have hslot := hknows.slot p i hp hi
  exact hflight (hslot ▸ hknows.reaped p hp (hslot ▸ hq))

/-- A child that is in the table or on its way there stays so, and a new one is on its way. -/
theorem placed_step (h : Tabled s) (hs : Step s act t) {q : Nat} (hq : q ∈ t.children.pids)
    (hold : q ∈ s.children.pids → s.Placed q) : t.Placed q := by
  cases hs with
  | die died =>
    rw [(Children.die_spec died).1] at hq
    exact hold hq
  | chldArrives => exact (hold hq).arrives rfl rfl fun _ => List.mem_cons_of_mem _
  | stopArrives =>
    exact (hold hq).arrives rfl (MainPc.inFlight_interrupt _) fun _ => List.mem_cons_of_mem _
  -- at the instructions of the main process no handler is running
  | mainMove idle next => exact .inl ((hold hq).of_idle idle (MainPc.inFlight_next next).1)
  | mainFork idle main forked =>
    obtain ⟨-, -, hpids, -⟩ := Children.fork_spec forked
    rcases Finset.mem_insert.mp (hpids ▸ hq) with rfl | hq
    · exact .inr (.inl rfl)
    · exact .inl ((hold hq).of_idle idle (main ▸ rfl))
  | mainStore idle main =>
    exact .inl (placed_mainStore h idle main (Children.ne_zero_of_mem hq) (hold hq))
  | mainForkFail idle main | mainKill idle main | mainDone idle main =>
    exact .inl ((hold hq).of_idle idle (main ▸ rfl))
  | mainReap idle main =>
    exact .inl ((hold (Finset.mem_of_mem_erase hq)).of_idle idle (main ▸ rfl))
  | @chldMove pc pc' below top next =>
    have hnone : pc.inFlight ≠ some q := by
      rw [(ChldPc.inFlight_next next).1]
      exact nofun
    exact (hold hq).of_top top hnone rfl rfl fun _ => List.mem_cons_of_mem _
  | chldReap top =>
    exact (hold (Finset.mem_of_mem_erase hq)).of_top top nofun rfl rfl
      fun _ => List.mem_cons_of_mem _
  | chldReturn top | shutReturn top => exact (hold hq).of_top top nofun rfl rfl fun _ hg => hg
  | chldClear top =>
    exact (hold hq).imp (exists_slot_update 0 (h.slot_ne top rfl rfl hq nofun))
      fun hflight => hflight.of_top top nofun rfl fun _ => List.mem_cons_of_mem _
  | chldFork top forked =>
    obtain ⟨-, -, hpids, -⟩ := Children.fork_spec forked
    rcases Finset.mem_insert.mp (hpids ▸ hq) with rfl | hq
    · exact .inr (.inr ⟨_, List.mem_cons_self, rfl⟩)
    · exact (hold hq).of_top top nofun rfl rfl fun _ => List.mem_cons_of_mem _
  | @chldStore pid i p below top =>
    -- the new worker goes from the handler into the slot of the one it replaces
    by_cases hqp : q = p
    · exact .inl ⟨i, (Function.update_self ..).trans hqp.symm⟩
    have hflight : (ChldPc.restartStore pid i p).inFlight ≠ some q :=
      fun heq => hqp (Option.some.inj heq).symm
    exact (hold hq).imp (exists_slot_update p (h.slot_ne top rfl rfl hq hflight))
      fun hold => hold.of_top top hflight rfl fun _ => List.mem_cons_of_mem _
  | chldForkFail top | shutFlag top | shutMove top | shutSend top =>
    exact (hold hq).of_top top nofun rfl rfl fun _ => List.mem_cons_of_mem _

theorem isRunning_of_step (hs : Step s act t) {q : Nat} (hold : q ∈ s.children.pids)
    (hq : t.children.isRunning q) : s.children.isRunning q := by
  cases hs with
  | die died => exact (Children.die_spec died).2 q hq
  | mainFork idle main forked | chldFork top forked =>
    obtain ⟨-, hnew, -, hrunning⟩ := Children.fork_spec forked
    rcases hrunning q hq with rfl | hq
    · exact absurd hold hnew
    · exact hq
  | mainReap | chldReap => exact (Children.isRunning_remove hq).2
  | _ => exact hq

theorem cover_step (h : Tabled s) (hs : Step s act t) :
    ∀ p, t.children.isRunning p → (∃ i, t.pids i = p) ∨ t.InFlight p :=
  fun p hp => placed_step h hs (Children.mem_of_isRunning hp) fun hold =>
    h.cover p (isRunning_of_step hs hold hp)

theorem Tabled.step (h : Tabled s) (hs : Step s act t) : Tabled t where
  signals := signals_step h hs
  stopping := stopping_step h hs
  unspawned := unspawned_step h hs
  chld := chld_step h hs
  cover := cover_step h hs

end Steps

theorem tabled_start : Tabled .start where
  signals := List.nodup_nil
  stopping := nofun
  unspawned := fun _ _ => rfl
  chld := nofun
  cover := by
    intro p hp
    cases hp

theorem tabled_invariant (P : State → Act → Prop) : machine.Invariant P Tabled where
  init := by
    rintro s rfl
    exact tabled_start
  step := fun _ _ _ h _ next => h.step (step_cases next)

/-- Slot `i` holds `p` or is about to. -/
def State.Keeps (s : State) (i : Fin maxProcess) (p : Nat) : Prop :=
  s.pids i = p ∨ s.main = .spawnStore i p ∨ ∃ pid, .chld (.restartStore pid i p) ∈ s.frames

theorem MainPc.eq_of_inFlight {pc : MainPc} {p : Nat} (h : pc.inFlight = some p) :
    ∃ i, pc = .spawnStore i p := by
  cases pc <;> cases h
  exact ⟨_, rfl⟩

theorem Frame.eq_of_inFlight {f : Frame} {p : Nat} (h : f.inFlight = some p) :
    ∃ pid i, f = .chld (.restartStore pid i p) := by
  cases f with
  | chld pc =>
    cases pc <;> cases h
    exact ⟨_, _, rfl⟩
  | shut sig pc => cases h

section Keeps
variable {s : State} {i : Fin maxProcess} {p q pid pid' : Nat}

theorem Tabled.exists_keeps (h : Tabled s) (hp : s.children.isRunning p) : ∃ i, s.Keeps i p := by
  rcases h.cover p hp with ⟨i, hi⟩ | hmain | ⟨f, hf, hfp⟩
  · exact ⟨i, .inl hi⟩
  · obtain ⟨i, hi⟩ := MainPc.eq_of_inFlight hmain
    exact ⟨i, .inr (.inl hi)⟩
  · obtain ⟨pid, i, rfl⟩ := Frame.eq_of_inFlight hfp
    exact ⟨i, .inr (.inr ⟨pid, hf⟩)⟩

theorem Tabled.eq_of_stored (h : Tabled s) (hp : s.children.isRunning p) (hslot : s.pids i = p)
    (hq : s.Keeps i q) : p = q := by
  have hmem := Children.mem_of_isRunning hp
  rcases hq with heq | hmain | ⟨pid, hframe⟩
  · exact hslot.symm.trans heq
  · have hzero := h.unspawned i (hmain ▸ le_refl (i : Nat))
    exact absurd (hslot.symm.trans hzero) (Children.ne_zero_of_mem hmem)
  · have hknows := h.chld _ hframe
    have hpid : p = pid := hslot.symm.trans (hknows.slot pid i rfl rfl)
    have hflight := hknows.reaped pid rfl (hpid ▸ hmem)
    rw [hpid]
    exact (Option.some.inj hflight).symm

theorem Tabled.not_stored_twice (h : Tabled s) (hmain : s.main = .spawnStore i p)
    (hframe : .chld (.restartStore pid i q) ∈ s.frames) : False := by
  have hknows := h.chld _ hframe
  have hzero := h.unspawned i (hmain ▸ le_refl (i : Nat))
  exact hknows.ne_zero pid rfl ((hknows.slot pid i rfl rfl).symm.trans hzero)

theorem Tabled.chld_unique (h : Tabled s) {pc pc' : ChldPc} (hpc : .chld pc ∈ s.frames)
    (hpc' : .chld pc' ∈ s.frames) : pc = pc' := by
  have heq := List.inj_on_of_nodup_map h.signals hpc hpc' rfl
  exact Frame.chld.inj heq

theorem Tabled.keeps_unique (h : Tabled s) (hp : s.children.isRunning p)
    (hq : s.children.isRunning q) (hkp : s.Keeps i p) (hkq : s.Keeps i q) : p = q := by
  have hkq' := hkq
  rcases hkp with hslot | hmain | ⟨pid, hframe⟩
  · exact h.eq_of_stored hp hslot hkq
  · rcases hkq with hslot' | hmain' | ⟨pid', hframe'⟩
    · exact (h.eq_of_stored hq hslot' (.inr (.inl hmain))).symm
    · rw [hmain] at hmain'
      cases hmain'
      rfl
    · exact (h.not_stored_twice hmain hframe').elim
  · rcases hkq with hslot' | hmain' | ⟨pid', hframe'⟩
    · exact (h.eq_of_stored hq hslot' (.inr (.inr ⟨pid, hframe⟩))).symm
    · exact (h.not_stored_twice hmain' hframe).elim
    · cases h.chld_unique hframe hframe'
      rfl

theorem Tabled.card_alive_le (h : Tabled s) : s.children.alive.card ≤ maxProcess := by
  have hcard : s.children.alive.card ≤ (Finset.univ : Finset (Fin maxProcess)).card := by
    apply Finset.card_le_card_of_forall_subsingleton (fun p i => s.Keeps i p)
    · intro p hp
      obtain ⟨i, hi⟩ := h.exists_keeps (Children.mem_alive.mp hp)
      exact ⟨i, Finset.mem_univ i, hi⟩
    · intro i _ p hp q hq
      exact h.keeps_unique (Children.mem_alive.mp hp.1) (Children.mem_alive.mp hq.1) hp.2 hq.2
  rwa [Finset.card_univ, Fintype.card_fin] at hcard

end Keeps

/-- A worker that has not ended is in the table unless its pid is still to be stored, and there
are `MAX_PROCESS` of them at most. -/
theorem table_covers_workers {s : State} (h : machine.Reachable s) :
    (∀ p, s.children.isRunning p → (∃ i, s.pids i = p) ∨ s.InFlight p) ∧
      s.children.alive.card ≤ maxProcess := by
  have htabled := (tabled_invariant _).holds h
  exact ⟨htabled.cover, htabled.card_alive_le⟩

/-- One worker crashes, its slot is taken by another one, and its pid comes back for the third
slot. -/
theorem table_covers_workers_reused : ∃ s : State,
    (s.children.isRunning 101 && s.children.isRunning 102 && s.children.isRunning 103) = true ∧
      (∀ p, s.children.isRunning p → (∃ i, s.pids i = p) ∨ s.InFlight p) ∧
      s.children.alive.card ≤ maxProcess := by
  have hrun : (machine.run (fun _ _ => True) .start
      [.fork 101, .tick, .fork 102, .tick, .die 101 (.exited 1), .deliver .chld, .reap 101, .tick,
        .tick, .tick, .tick, .tick, .fork 103, .tick, .reapNone, .fork 101]).map (fun s =>
        s.children.isRunning 101 && s.children.isRunning 102 && s.children.isRunning 103) =
      some true := by
    decide +kernel
  obtain ⟨s, hs, hrunning⟩ := Option.map_eq_some_iff.mp hrun
  exact ⟨s, hrunning, table_covers_workers (Machine.ReachableBy.run (.init rfl) hs)⟩

end MinhServer.Master
