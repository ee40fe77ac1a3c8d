import Mathlib.Algebra.Group.Action.Defs
import Mathlib.Algebra.Order.BigOperators.Group.List
import Mathlib.Data.Finset.Card
import MinhServer.Library.Budget
import MinhServer.Master.Orphans

namespace MinhServer.Master

/-- The workers forked by the spawn loop, or left out by it. -/
def MainPc.spawned : MainPc → Nat
  | .spawn i => min i maxProcess
  | .spawnStore i _ => i + 1
  | _ => maxProcess

/-- A worker was reaped and its place is not taken again yet. -/
def ChldPc.vacancy : ChldPc → Nat
  | .wait | .restartStore _ _ _ => 0
  | _ => 1

def Frame.vacancy : Frame → Nat
  | .chld pc => pc.vacancy
  | .shut _ _ => 0

/-- The waiting for the workers takes thirty rounds at most. -/
def MainPc.InTime : MainPc → Prop
  | .waitTest timeout => timeout ≤ 30
  | .waitScan timeout _ => timeout < 30
  | _ => True

/-- Handlers are those of the three signals, and every place is held by one child at most. -/
structure Housed (s : State) : Prop where
  inTime : s.main.InTime
  handled : ∀ f ∈ s.frames, f.signal = .chld ∨ f.signal = .int ∨ f.signal = .term
  places : s.children.pids.card + (s.frames.map Frame.vacancy).sum ≤ s.main.spawned

section Facts
variable {pids : Fin maxProcess → Nat} {running : Bool}

@[simp] theorem MainPc.spawned_interrupt (pc : MainPc) : pc.interrupt.spawned = pc.spawned := by
  cases pc <;> rfl

@[simp] theorem MainPc.inTime_interrupt (pc : MainPc) : pc.interrupt.InTime ↔ pc.InTime := by
  cases pc <;> rfl

theorem MainPc.InTime.next {pc pc' : MainPc} (hin : pc.InTime)
    (h : pc.next pids running = some pc') : pc'.InTime := by
  cases pc <;> simp only [MainPc.next] at h <;> try contradiction
  case serve =>
    cases h
    cases running with
    | true => trivial
    | false => exact le_rfl
  case waitTest timeout =>
    split at h
    · cases h
      exact Int.sub_one_lt_of_le hin
    · cases h
      trivial
  case waitScan timeout i =>
    (repeat' split at h) <;> cases h
    · exact le_of_lt hin
    · exact hin
    · trivial
  all_goals (repeat' split at h) <;> cases h <;> trivial

theorem MainPc.spawned_next {pc pc' : MainPc} (h : pc.next pids running = some pc') :
    pc.spawned = maxProcess ∧ pc'.spawned = maxProcess := by
  cases pc <;> simp only [MainPc.next] at h <;> try contradiction
  case spawn i =>
    split at h
    · cases h
    · next hi =>
      cases h
      exact ⟨min_eq_right (not_lt.mp hi), rfl⟩
  all_goals (repeat' split at h) <;> cases h <;> exact ⟨rfl, rfl⟩

theorem ChldPc.vacancy_next {pc pc' : ChldPc} (h : pc.next pids running = some pc') :
    pc'.vacancy ≤ pc.vacancy := by
  cases pc <;> simp only [ChldPc.next] at h <;> try contradiction
  all_goals (repeat' split at h) <;> cases h <;> first | exact le_rfl | exact Nat.zero_le _

theorem isStop_iff {sig : Signal} : sig.isStop = true ↔ sig = .int ∨ sig = .term := by
  cases sig <;> simp [Signal.isStop]

theorem Children.card_fork {c d : Children} {p : Nat} {image : Image}
    (h : c.fork p image = some d) : d.pids.card = c.pids.card + 1 := by
  obtain ⟨-, hnew, hpids, -⟩ := Children.fork_spec h
  rw [hpids, Finset.card_insert_of_notMem hnew]

theorem Children.card_remove {c : Children} {p : Nat} {status : Status}
    (h : c.statusOf p = some status) : (c.remove p).pids.card + 1 = c.pids.card :=
  Finset.card_erase_add_one (Children.mem_of_statusOf h)

end Facts

section Steps
variable {s t : State} {act : Act}

theorem inTime_step (h : Housed s) (hs : Step s act t) : t.main.InTime := by
  have hin := h.inTime
  cases hs with
  | stopArrives => exact (MainPc.inTime_interrupt _).mpr hin
  | mainMove idle next => exact hin.next next
  | mainFork | mainForkFail | mainStore | mainKill | mainReap | mainDone => trivial
  | _ => exact hin

theorem handled_step (h : Housed s) (hs : Step s act t) :
    ∀ f ∈ t.frames, f.signal = .chld ∨ f.signal = .int ∨ f.signal = .term := by
  have hhandled := h.handled
  cases hs with
  | chldArrives => exact List.forall_mem_cons.mpr ⟨.inl rfl, hhandled⟩
  | stopArrives stop => exact List.forall_mem_cons.mpr ⟨.inr (isStop_iff.mp stop), hhandled⟩
  | chldMove top | chldReap top | chldClear top | chldFork top | chldForkFail top | chldStore top
  | shutFlag top | shutMove top | shutSend top =>
    rw [top] at hhandled
    exact List.forall_mem_cons.mpr (List.forall_mem_cons.mp hhandled)
  | chldReturn top | shutReturn top =>
    rw [top] at hhandled
    exact (List.forall_mem_cons.mp hhandled).2
  | _ => exact hhandled

theorem sum_frames_top (F : Frame → Nat) {f : Frame} {below : List Frame}
    (top : s.frames = f :: below) : (s.frames.map F).sum = F f + (below.map F).sum := by
  rw [top, List.map_cons, List.sum_cons]

theorem Housed.places_top (h : Housed s) {f f' : Frame} {below : List Frame} {n : Nat}
    (top : s.frames = f :: below) (hn : n + f'.vacancy ≤ s.children.pids.card + f.vacancy) :
    n + ((f' :: below).map Frame.vacancy).sum ≤ s.main.spawned := by
  have hplaces := h.places
  rw [sum_frames_top Frame.vacancy top] at hplaces
  rw [List.map_cons, List.sum_cons]
  omega

theorem Housed.places_returns (h : Housed s) {f : Frame} {below : List Frame}
    (top : s.frames = f :: below) :
    s.children.pids.card + (below.map Frame.vacancy).sum ≤ s.main.spawned := by
  have hplaces := h.places
  rw [sum_frames_top Frame.vacancy top] at hplaces
  omega

theorem Housed.places_main (h : Housed s) {pc : MainPc} {n : Nat} (main : s.main = pc)
    (hn : n + pc.spawned ≤ s.children.pids.card + t.main.spawned) :
    n + (s.frames.map Frame.vacancy).sum ≤ t.main.spawned := by
  have hplaces := h.places
  rw [main] at hplaces
  omega

theorem places_step (h : Housed s) (hs : Step s act t) :
    t.children.pids.card + (t.frames.map Frame.vacancy).sum ≤ t.main.spawned := by
  cases hs with
  | die died =>
    rw [(Children.die_spec died).1]
    exact h.places
  | chldArrives =>
    rw [List.map_cons, List.sum_cons]
    exact (congrArg _ (Nat.zero_add _)).trans_le h.places
  | stopArrives =>
    rw [List.map_cons, List.sum_cons, MainPc.spawned_interrupt]
    exact (congrArg _ (Nat.zero_add _)).trans_le h.places
  | mainMove idle next =>
    obtain ⟨hbefore, hafter⟩ := MainPc.spawned_next next
    rw [State.goto, hafter, ← hbefore]
    exact h.places
  | @mainFork i p c idle main forked =>
    have hi : min (i : Nat) maxProcess = i := min_eq_left i.isLt.le
    have hcard := Children.card_fork forked
    exact h.places_main main (by simp only [MainPc.spawned, hi]; omega)
  | @mainForkFail i idle main =>
    have hle := min_le_min_right maxProcess (Nat.le_succ (i : Nat))
    exact h.places_main main (by simp only [State.goto, MainPc.spawned]; omega)
  | @mainStore i p idle main =>
    have hi : min ((i : Nat) + 1) maxProcess = i + 1 := min_eq_left i.isLt
    exact h.places_main main (by simp only [State.goto, State.setPid, MainPc.spawned, hi, le_refl])
  | mainKill idle main | mainDone idle main => exact h.places_main main le_rfl
  | mainReap idle main ended =>
    have hcard := Children.card_remove ended
    exact h.places_main main (by simp only [MainPc.spawned]; omega)
  | chldMove top next =>
    exact h.places_top top (Nat.add_le_add_left (ChldPc.vacancy_next next) _)
  | chldReap top ended => exact h.places_top top (Children.card_remove ended).le
  | chldFork top forked => exact h.places_top top (Children.card_fork forked).le
  | chldClear top | chldForkFail top => exact h.places_top top (Nat.le_succ _)
  | chldStore top | shutFlag top | shutMove top | shutSend top => exact h.places_top top le_rfl
  | chldReturn top | shutReturn top => exact h.places_returns top

theorem Housed.step (h : Housed s) (hs : Step s act t) : Housed t where
  inTime := inTime_step h hs
  handled := handled_step h hs
  places := places_step h hs

end Steps

theorem housed_invariant (P : State → Act → Prop) : machine.Invariant P Housed where
  init := by
    rintro s rfl
    exact ⟨trivial, nofun, le_rfl⟩
  step := fun _ _ _ h _ next => h.step (step_cases next)

def Act.forks : Act → Nat
  | .fork _ => 1
  | _ => 0

def Act.reaps : Act → Nat
  | .reap _ => 1
  | _ => 0

theorem children_step {s t : State} {act : Act} (hs : Step s act t) :
    t.children.pids.card + act.reaps = s.children.pids.card + act.forks := by
  cases hs with
  | die died =>
    rw [(Children.die_spec died).1]
    rfl
  | mainFork idle main forked => exact Children.card_fork forked
  | chldFork top forked => exact Children.card_fork forked
  | mainReap idle main ended => exact Children.card_remove ended
  | chldReap top ended => exact Children.card_remove ended
  | _ => rfl

/-- Every fork beyond the first `MAX_PROCESS` needs a child that was reaped before: whatever the
interleaving, the children that run and those that have ended are `MAX_PROCESS` at most, and they
are the ones forked less the ones reaped. -/
theorem children_conserved {s : State} {acts : List Act}
    (hrun : machine.run (fun _ _ => True) .start acts = some s) :
    s.children.pids.card + (acts.map Act.reaps).sum = (acts.map Act.forks).sum ∧
      s.children.pids.card ≤ maxProcess := by
  have hstep : ∀ (s : State) (act : Act) (t : State), True → True →
      machine.step s act = some t →
      True ∧ t.children.pids.card + act.reaps = s.children.pids.card + act.forks :=
    fun _ _ _ _ _ next => ⟨trivial, children_step (step_cases next)⟩
  have hcount := Machine.run_conserves hstep trivial hrun
  have hreach : machine.Reachable s := Machine.ReachableBy.run (.init rfl) hrun
  have hhoused := (housed_invariant _).holds hreach
  refine ⟨hcount.trans (Nat.zero_add _), ?_⟩
  have hspawned : s.main.spawned ≤ maxProcess := by
    cases s.main with
    | spawn i => exact min_le_right _ _
    | spawnStore i p => exact i.isLt
    | _ => exact le_rfl
  exact ((Nat.le_add_right _ _).trans hhoused.places).trans hspawned

/-- A worker crashes, and its pid comes back for the one that replaces it. -/
theorem children_conserved_reused : ∃ s acts,
    machine.run (fun _ _ => True) .start acts = some s ∧ s.children.isRunning 101 = true ∧
      s.children.pids.card + 1 = 3 ∧ s.children.pids.card ≤ maxProcess := by
  let acts : List Act := [.fork 101, .tick, .fork 102, .tick, .die 101 (.exited 1), .deliver .chld,
    .reap 101, .tick, .tick, .tick, .tick, .tick, .fork 101]
  have hresult : (machine.run (fun _ _ => True) .start acts).map (·.children.isRunning 101) =
      some true := by decide +kernel
  obtain ⟨s, hs, hrunning⟩ := Option.map_eq_some_iff.mp hresult
  have hforks : (acts.map Act.forks).sum = 3 := by decide +kernel
  have hreaps : (acts.map Act.reaps).sum = 1 := by decide +kernel
  obtain ⟨hcount, hbound⟩ := children_conserved hs
  rw [hforks, hreaps] at hcount
  exact ⟨s, acts, hs, hrunning, hcount, hbound⟩

/-- What the main function has left to do once `server_running` is 0: at most thirty rounds of
waiting, one round of `kill`, and the last `waitpid`. -/
def MainPc.work : MainPc → Nat
  | .spawn i => 9 * (maxProcess - i) + 198
  | .spawnStore i _ => 9 * (maxProcess - i) + 190
  | .serve => 197
  | .waitTest timeout => 6 * timeout.toNat + 16
  | .waitScan timeout i => 6 * timeout.toNat + 17 + (maxProcess - i)
  | .killCheck _ => 15
  | .killTest i => 3 * (maxProcess - i) + 2
  | .killLoad i => 3 * (maxProcess - i) + 1
  | .killSend i _ => 3 * (maxProcess - i)
  | .reap _ => 1
  | .done => 0

def ChldPc.work : ChldPc → Nat
  | .wait => 1
  | .scan _ _ i => (maxProcess - i) + 3
  | .found _ _ _ => 3
  | .clear _ _ => 2
  | .restartPid _ _ => 3
  | .restartFlag _ _ => 2
  | .restartSleep _ _ => 11
  | .restartFork _ _ => 10
  | .restartStore _ _ _ => 2

def ShutPc.work : ShutPc → Nat
  | .flag => 14
  | .test i => 3 * (maxProcess - i) + 1
  | .load i => 3 * (maxProcess - i)
  | .send i _ => 3 * (maxProcess - i) - 1

def Frame.work : Frame → Nat
  | .chld pc => pc.work
  | .shut _ pc => pc.work

/-- A child stands for the seven instructions of the handler that reaps it. -/
def State.work (s : State) : Nat :=
  s.main.work + (s.frames.map Frame.work).sum + 7 * s.children.pids.card

/-- The instructions of the master. -/
def Act.instructions : Act → Nat
  | .tick | .fork _ | .forkFail | .reap _ | .reapNone => 1
  | .deliver _ | .die _ _ => 0

def Act.signals : Act → Nat
  | .deliver _ => 1
  | _ => 0

section Work
variable {pids : Fin maxProcess → Nat}

@[simp] theorem MainPc.work_interrupt (pc : MainPc) : pc.interrupt.work = pc.work := by
  cases pc <;> rfl

theorem MainPc.work_next {pc pc' : MainPc} (h : pc.next pids false = some pc') :
    pc'.work + 1 ≤ pc.work := by
  cases pc <;> simp only [MainPc.next] at h <;> try contradiction
  case spawn i =>
    split at h
    · cases h
    · cases h
      exact Nat.le_add_left _ _
  case waitTest timeout =>
    split at h
    · next hpos =>
      cases h
      simp only [MainPc.work, maxProcess]
      omega
    · cases h
      exact Nat.le_add_left _ _
  case waitScan timeout i =>
    split at h
    · split at h
      · cases h
        simp only [MainPc.work]
        omega
      · cases h
        simp only [MainPc.work]
        omega
    · cases h
      simp only [MainPc.work]
      omega
  case killTest i =>
    split at h
    · split at h
      · cases h
        exact le_rfl
      · cases h
        simp only [MainPc.work]
        omega
    · cases h
      exact Nat.le_add_left _ _
  case serve =>
    rw [if_neg Bool.false_ne_true] at h
    cases h
    exact le_rfl
  case killCheck timeout =>
    split at h
    · cases h
      exact le_rfl
    · cases h
      exact Nat.le_add_left 2 13
  all_goals cases h; exact le_rfl

theorem ChldPc.work_next {pc pc' : ChldPc} (h : pc.next pids false = some pc') :
    pc'.work + 1 ≤ pc.work := by
  cases pc <;> simp only [ChldPc.next] at h <;> try contradiction
  case scan p status i =>
    split at h
    · split at h
      · cases h
        simp only [ChldPc.work]
        omega
      · cases h
        simp only [ChldPc.work]
        omega
    · cases h
      simp only [ChldPc.work]
      omega
  all_goals (repeat' split at h) <;> cases h <;> simp_all [ChldPc.work]

theorem ShutPc.work_next {pc pc' : ShutPc} (h : pc.next pids = some pc') :
    pc'.work + 1 ≤ pc.work := by
  cases pc with
  | flag | send i p => cases h
  | test i =>
    simp only [ShutPc.next] at h
    split at h
    · split at h
      · cases h
        exact le_rfl
      · cases h
        simp only [ShutPc.work]
        omega
    · cases h
  | load i =>
    cases h
    have hi := i.isLt
    simp only [ShutPc.work]
    omega

variable {s t : State} {act : Act}

theorem work_main {pc : MainPc} {k : Nat} (main : s.main = pc) (hframes : t.frames = s.frames)
    (hwork : t.main.work + 7 * t.children.pids.card + k ≤ pc.work + 7 * s.children.pids.card) :
    t.work + k ≤ s.work := by
  unfold State.work
  rw [hframes, main]
  omega

theorem work_top {f f' : Frame} {below : List Frame} {k : Nat} (top : s.frames = f :: below)
    (hmain : t.main = s.main) (hframes : t.frames = f' :: below)
    (hwork : f'.work + 7 * t.children.pids.card + k ≤ f.work + 7 * s.children.pids.card) :
    t.work + k ≤ s.work := by
  have hbefore := sum_frames_top Frame.work top
  have hafter := sum_frames_top Frame.work hframes
  unfold State.work
  rw [hmain, hbefore, hafter]
  omega

theorem work_returns {f : Frame} {below : List Frame} {k : Nat} (top : s.frames = f :: below)
    (hwork : k ≤ f.work) : (s.handlerReturns below).work + k ≤ s.work := by
  have hbefore := sum_frames_top Frame.work top
  unfold State.work
  dsimp only [State.handlerReturns]
  omega

/-- Every instruction of the master uses up work, and only a signal brings new work. -/
theorem work_step (hstopped : s.running = false) (hs : Step s act t) :
    t.work + act.instructions ≤ s.work + 14 * act.signals := by
  cases hs with
  | die died =>
    rw [State.work, (Children.die_spec died).1]
    exact le_rfl
  | chldArrives =>
    simp only [State.work, List.map_cons, List.sum_cons, Frame.work, ChldPc.work, Act.instructions,
      Act.signals]
    omega
  | stopArrives =>
    simp only [State.work, List.map_cons, List.sum_cons, Frame.work, ShutPc.work, Act.instructions,
      Act.signals, MainPc.work_interrupt]
    omega
  | mainMove idle next =>
    rw [hstopped] at next
    have hwork := MainPc.work_next next
    exact work_main rfl rfl (by simp only [State.goto, Act.instructions]; omega)
  | @mainFork i p c idle main forked =>
    have hi : (i : Nat) < 4 := i.isLt
    have hcard := Children.card_fork forked
    exact work_main main rfl (by simp only [MainPc.work, Act.instructions, maxProcess]; omega)
  | @mainForkFail i idle main | @mainStore i p idle main | @mainKill i p idle main =>
    have hi : (i : Nat) < 4 := i.isLt
    refine work_main main rfl ?_
    simp only [State.goto, State.setPid, State.kill, MainPc.work, Act.instructions, maxProcess]
    omega
  | mainReap idle main ended =>
    have hcard := Children.card_remove ended
    exact work_main main rfl (by simp only [MainPc.work, Act.instructions]; omega)
  | mainDone idle main =>
    exact work_main main rfl (by simp only [State.goto, MainPc.work, Act.instructions]; omega)
  | chldMove top next =>
    rw [hstopped] at next
    have hwork := ChldPc.work_next next
    exact work_top top rfl rfl (by simp only [Frame.work, State.handler, Act.instructions]; omega)
  | chldReap top ended =>
    have hcard := Children.card_remove ended
    refine work_top top rfl rfl ?_
    simp only [Frame.work, ChldPc.work, Act.instructions, maxProcess]
    omega
  | chldFork top forked =>
    have hcard := Children.card_fork forked
    exact work_top top rfl rfl (by simp only [Frame.work, ChldPc.work, Act.instructions]; omega)
  | chldClear top | chldForkFail top | chldStore top =>
    refine work_top top rfl rfl ?_
    simp only [Frame.work, ChldPc.work, State.handler, State.setPid, Act.instructions]
    omega
  | shutMove top next =>
    have hwork := ShutPc.work_next next
    exact work_top top rfl rfl (by simp only [Frame.work, State.handler, Act.instructions]; omega)
  | @shutSend sig i p below top =>
    have hi : (i : Nat) < 4 := i.isLt
    refine work_top top rfl rfl ?_
    simp only [Frame.work, ShutPc.work, State.handler, State.kill, Act.instructions, maxProcess]
    omega
  | shutFlag top =>
    refine work_top top rfl rfl ?_
    simp only [Frame.work, ShutPc.work, Act.instructions, maxProcess]
    omega
  | chldReturn top => exact work_returns top le_rfl
  | shutReturn top =>
    exact work_returns top (by simp only [Frame.work, ShutPc.work, Act.instructions]; omega)

end Work

theorem Frame.work_le (f : Frame) : f.work ≤ 14 := by
  cases f with
  | chld pc => cases pc <;> simp only [Frame.work, ChldPc.work, maxProcess] <;> omega
  | shut sig pc => cases pc <;> simp only [Frame.work, ShutPc.work, maxProcess] <;> omega

theorem MainPc.work_le {pc : MainPc} (hin : pc.InTime) : pc.work + 7 * pc.spawned ≤ 234 := by
  cases pc with
  | spawn i =>
    simp only [MainPc.work, MainPc.spawned, maxProcess]
    omega
  | spawnStore i p =>
    simp only [MainPc.work, MainPc.spawned, maxProcess]
    omega
  | waitTest timeout =>
    have hin : timeout ≤ 30 := hin
    simp only [MainPc.work, MainPc.spawned, maxProcess]
    omega
  | waitScan timeout i =>
    have hin : timeout < 30 := hin
    simp only [MainPc.work, MainPc.spawned, maxProcess]
    omega
  | serve | killCheck timeout | killTest i | killLoad i | killSend i p | reap b | done =>
    simp only [MainPc.work, MainPc.spawned, maxProcess]
    omega

section Bound
variable {s t : State} {acts : List Act}

theorem length_frames_le (hT : Tabled s) (h : Housed s) : s.frames.length ≤ 3 := by
  have hsignals :
      (s.frames.map Frame.signal).toFinset ⊆ {Signal.chld, Signal.int, Signal.term} := by
    intro sig hsig
    obtain ⟨f, hf, rfl⟩ := List.mem_map.mp (List.mem_toFinset.mp hsig)
    simpa using h.handled f hf
  have hcard := Finset.card_le_card hsignals
  rwa [List.toFinset_card_of_nodup hT.signals, List.length_map] at hcard

theorem frames_work_le (hT : Tabled s) (h : Housed s) : (s.frames.map Frame.work).sum ≤ 42 := by
  have hlength := length_frames_le hT h
  have hsum : (s.frames.map Frame.work).sum ≤ (s.frames.map Frame.work).length • 14 := by
    apply List.sum_le_card_nsmul
    intro n hn
    obtain ⟨f, -, rfl⟩ := List.mem_map.mp hn
    exact f.work_le
  rw [List.length_map, smul_eq_mul] at hsum
  omega

theorem work_le (hT : Tabled s) (h : Housed s) : s.work ≤ 276 := by
  have hmain := MainPc.work_le h.inTime
  have hframes := frames_work_le hT h
  have hplaces := h.places
  rw [State.work]
  omega

end Bound

def State.CanGoOn (s : State) : Prop := ∃ act, act.instructions = 1 ∧ (s.step act).isSome = true

/-- `runMutilProcessServer` has returned. -/
def State.Finished (s : State) : Prop := s.frames = [] ∧ s.main = .done

/-- The last `waitpid` waits for a child to end. -/
def State.Waits (s : State) : Prop :=
  s.frames = [] ∧ s.main = .reap false ∧ s.children.pids.Nonempty ∧
    ∀ p ∈ s.children.pids, s.children.isRunning p = true

section GoingOn
variable {s : State}

theorem Children.exists_status {c : Children} (h : c.hasZombie) :
    ∃ p status, c.statusOf p = some status := by
  obtain ⟨p, hp, hended⟩ := h
  rw [c.mem_pids] at hp
  cases hproc : c.proc p with
  | none =>
    rw [hproc] at hp
    cases hp
  | some proc =>
    cases proc with
    | running image =>
      rw [Children.isRunning, hproc] at hended
      cases hended
    | zombie status => exact ⟨p, status, by rw [Children.statusOf, hproc]⟩

theorem step_main {act : Act} (hact : act.instructions = 1) (idle : s.frames = []) :
    s.step act = s.mainStep act := by
  cases act <;> first | cases hact; done | (unfold State.step; rw [idle])

theorem step_chld {act : Act} (hact : act.instructions = 1) {pc : ChldPc} {below : List Frame}
    (top : s.frames = .chld pc :: below) : s.step act = s.chldStep pc below act := by
  cases act <;> first | cases hact; done | (unfold State.step; rw [top])

theorem step_shut {act : Act} (hact : act.instructions = 1) {sig : Signal} {pc : ShutPc}
    {below : List Frame} (top : s.frames = .shut sig pc :: below) :
    s.step act = s.shutStep sig pc below act := by
  cases act <;> first | cases hact; done | (unfold State.step; rw [top])

theorem canGoOn_chld {pc : ChldPc} {below : List Frame} (top : s.frames = .chld pc :: below) :
    s.CanGoOn := by
  cases pc with
  | wait =>
    by_cases hzombie : s.children.hasZombie
    · obtain ⟨p, status, hstatus⟩ := Children.exists_status hzombie
      refine ⟨.reap p, rfl, ?_⟩
      rw [step_chld rfl top, State.chldStep, hstatus]
      rfl
    · refine ⟨.reapNone, rfl, ?_⟩
      rw [step_chld rfl top, State.chldStep, if_neg hzombie]
      rfl
  | restartFork pid i =>
    refine ⟨.forkFail, rfl, ?_⟩
    rw [step_chld rfl top]
    rfl
  | scan p status i =>
    refine ⟨.tick, rfl, ?_⟩
    rw [step_chld rfl top]
    unfold State.chldStep ChldPc.next
    dsimp only
    split <;> rfl
  | found p status i | clear p i | restartPid p i | restartFlag p i | restartSleep p i
  | restartStore p i q =>
    refine ⟨.tick, rfl, ?_⟩
    rw [step_chld rfl top]
    rfl

theorem canGoOn_shut {sig : Signal} {pc : ShutPc} {below : List Frame}
    (top : s.frames = .shut sig pc :: below) : s.CanGoOn := by
  refine ⟨.tick, rfl, ?_⟩
  rw [step_shut rfl top]
  cases pc with
  | flag | load i | send i p => rfl
  | test i =>
    unfold State.shutStep ShutPc.next
    dsimp only
    split <;> rfl

theorem canGoOn_main (idle : s.frames = []) : s.CanGoOn ∨ s.Finished ∨ s.Waits := by
  cases hmain : s.main with
  | done => exact .inr (.inl ⟨idle, hmain⟩)
  | reap interrupted =>
    by_cases hzombie : s.children.hasZombie
    · obtain ⟨p, status, hstatus⟩ := Children.exists_status hzombie
      refine .inl ⟨.reap p, rfl, ?_⟩
      rw [step_main rfl idle]
      simp only [State.mainStep, hmain, hstatus, Option.map_some, Option.isSome_some]
    · by_cases hfinished : s.children.pids = ∅ ∨ interrupted = true
      · refine .inl ⟨.reapNone, rfl, ?_⟩
        rw [step_main rfl idle]
        simp only [State.mainStep, hmain, if_pos hfinished, Option.isSome_some]
      · obtain ⟨hsome, hblocked⟩ := not_or.mp hfinished
        rw [Bool.not_eq_true] at hblocked
        refine .inr (.inr ⟨idle, hblocked ▸ hmain, Finset.nonempty_iff_ne_empty.mpr hsome, ?_⟩)
        intro p hp
        by_contra hended
        exact hzombie ⟨p, hp, Bool.eq_false_iff.mpr hended⟩
  | spawn i =>
    by_cases hi : i < maxProcess
    · refine .inl ⟨.forkFail, rfl, ?_⟩
      rw [step_main rfl idle]
      simp only [State.mainStep, hmain, if_pos hi, Option.isSome_some]
    · refine .inl ⟨.tick, rfl, ?_⟩
      rw [step_main rfl idle]
      simp only [State.mainStep, hmain, MainPc.next, if_neg hi, Option.map_some, Option.isSome_some]
  | waitScan timeout i | killTest i =>
    refine .inl ⟨.tick, rfl, ?_⟩
    rw [step_main rfl idle]
    simp only [State.mainStep, hmain, MainPc.next]
    split <;> rfl
  | spawnStore i p | serve | waitTest timeout | killCheck timeout | killLoad i | killSend i p =>
    refine .inl ⟨.tick, rfl, ?_⟩
    rw [step_main rfl idle]
    simp only [State.mainStep, hmain]
    rfl

theorem goes_on (s : State) : s.CanGoOn ∨ s.Finished ∨ s.Waits := by
  cases hframes : s.frames with
  | nil => exact canGoOn_main hframes
  | cons f below =>
    cases f with
    | chld pc => exact .inl (canGoOn_chld hframes)
    | shut sig pc => exact .inl (canGoOn_shut hframes)

end GoingOn

section Ends
variable {s t : State} {act : Act} {acts : List Act}

theorem stays_stopped (hstopped : s.running = false) (hs : Step s act t) : t.running = false := by
  cases hs with
  | shutFlag => rfl
  | _ => exact hstopped

theorem ending_invariant :
    machine.Invariant (fun _ _ => True) fun s => Tabled s ∧ Master.Ending s :=
  (tabled_invariant _).with (by rintro s rfl; exact ending_start)
    fun _ _ _ hT hE _ next => hE.step hT (step_cases next)

/-- Who is waited for at the end has been sent SIGKILL. -/
theorem State.Waits.killed (h : t.Waits) (hE : Master.Ending t) :
    ∀ p ∈ t.children.pids, t.Killed p := by
  obtain ⟨-, hmain, -, hrunning⟩ := h
  intro p hp
  have hkilled := hE.killed (by rw [hmain]; rfl) p (hrunning p hp)
  rw [hmain] at hkilled
  exact hkilled.resolve_left id

/-- Once `server_running` is 0 the master executes 276 instructions at most, and 14 more for each
signal that it gets. It is never stuck: until it has returned it can go on, or it waits for workers
each of which it has sent SIGKILL. -/
theorem shutdown_ends (h : machine.Reachable s) (hstopped : s.running = false)
    (hrun : machine.run (fun _ _ => True) s acts = some t) :
    (acts.map Act.instructions).sum ≤ 276 + 14 * (acts.map Act.signals).sum ∧
      (t.CanGoOn ∨ t.Finished ∨ t.Waits ∧ ∀ p ∈ t.children.pids, t.Killed p) := by
  have hwork := work_le ((tabled_invariant _).holds h) ((housed_invariant _).holds h)
  have hstep : ∀ (s : State) (act : Act) (t : State), s.running = false → True →
      machine.step s act = some t →
      t.running = false ∧ t.work + act.instructions ≤ s.work + 14 * act.signals :=
    fun _ _ _ hs _ next => ⟨stays_stopped hs (step_cases next), work_step hs (step_cases next)⟩
  obtain ⟨-, hbudget⟩ := Machine.run_budget hstep hstopped hrun
  rw [List.sum_map_mul_left] at hbudget
  refine ⟨by omega, ?_⟩
  have hE := (ending_invariant.holds (Machine.ReachableBy.run h hrun)).2
  exact (goes_on t).imp_right (Or.imp_right fun hwaits => ⟨hwaits, hwaits.killed hE⟩)

/-- A worker does not react to SIGTERM, and the time passes. -/
theorem shutdown_ends_waiting : ∃ s t : State,
    machine.run (fun _ _ => True) s (List.replicate 77 .tick) = some t ∧
      t.children.isRunning 101 = true ∧
      (t.CanGoOn ∨ t.Finished ∨ t.Waits ∧ ∀ p ∈ t.children.pids, t.Killed p) := by
  have hrun : (machine.run (fun _ _ => True) .start
      [.fork 101, .tick, .forkFail, .forkFail, .forkFail, .tick, .deliver .term, .tick]).bind
        (fun s => (machine.run (fun _ _ => True) s (List.replicate 77 .tick)).map
          fun t => (s.running, t.children.isRunning 101)) = some (false, true) := by
    decide +kernel
  obtain ⟨s, hs, hrest⟩ := Option.bind_eq_some_iff.mp hrun
  obtain ⟨t, ht, hresult⟩ := Option.map_eq_some_iff.mp hrest
  obtain ⟨hstopped, hrunning⟩ := Prod.mk.inj hresult
  have hends := shutdown_ends (Machine.ReachableBy.run (.init rfl) hs) hstopped ht
  exact ⟨s, t, ht, hrunning, hends.2⟩

end Ends

end MinhServer.Master
