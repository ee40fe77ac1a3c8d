import MinhServer.Master.Table

namespace MinhServer.Master

/-- The loop of `shutdownHandler` has `p` before it. -/
def ShutPc.Pending (pids : Fin maxProcess → Nat) (p : Nat) : ShutPc → Prop
  | .flag => False
  | .test n => ∃ i : Fin maxProcess, n ≤ i ∧ pids i = p
  | .load n => ∃ i : Fin maxProcess, n ≤ i ∧ pids i = p
  | .send n q => q = p ∨ ∃ i : Fin maxProcess, n < i ∧ pids i = p

def Frame.Pending (pids : Fin maxProcess → Nat) (p : Nat) : Frame → Prop
  | .chld _ => False
  | .shut _ pc => pc.Pending pids p

instance (pids : Fin maxProcess → Nat) (p : Nat) : (pc : ShutPc) → Decidable (pc.Pending pids p)
  | .flag => inferInstanceAs (Decidable False)
  | .test n => inferInstanceAs (Decidable (∃ i : Fin maxProcess, n ≤ i ∧ pids i = p))
  | .load n => inferInstanceAs (Decidable (∃ i : Fin maxProcess, n ≤ i ∧ pids i = p))
  | .send n q =>
    inferInstanceAs (Decidable (q = p ∨ ∃ i : Fin maxProcess, n < i ∧ pids i = p))

instance (pids : Fin maxProcess → Nat) (p : Nat) : (f : Frame) → Decidable (f.Pending pids p)
  | .chld _ => inferInstanceAs (Decidable False)
  | .shut _ pc => inferInstanceAs (Decidable (pc.Pending pids p))

/-- The spawn loop has a worker to fork or to store. -/
def MainPc.spawning : MainPc → Bool
  | .spawn n => n < maxProcess
  | .spawnStore _ _ => true
  | _ => false

/-- `restartWorker` has made its tests and has not stored the pid. -/
def ChldPc.forking : ChldPc → Bool
  | .restartSleep _ _ | .restartFork _ _ | .restartStore _ _ _ => true
  | _ => false

def Frame.forking : Frame → Bool
  | .chld pc => pc.forking
  | .shut _ _ => false

/-- The steps after which a shutdown still reaches every worker. -/
def Settled (s : State) : Act → Prop
  -- no shutdown during the spawn loop or between the tests of a restart and its store
  | .deliver sig => sig.isStop → s.main.spawning = false ∧ ∀ f ∈ s.frames, f.forking = false
  -- no worker is reaped that the interrupted shutdown has not come to
  | .reap p => ∀ f ∈ s.frames, ¬ f.Pending s.pids p
  | _ => True

instance (s : State) : (act : Act) → Decidable (Settled s act)
  | .deliver sig => inferInstanceAs (Decidable (sig.isStop →
      s.main.spawning = false ∧ ∀ f ∈ s.frames, f.forking = false))
  | .reap p => inferInstanceAs (Decidable (∀ f ∈ s.frames, ¬ f.Pending s.pids p))
  | .tick | .fork _ | .forkFail | .reapNone | .die _ _ => inferInstanceAs (Decidable True)

/-- Since `server_running` was cleared no worker was forked, and when the handler that cleared
it has returned, each worker that was alive then has been sent SIGTERM. -/
def ShutdownReaches (s : State) : Prop :=
  ∀ after sig alive before, s.log = after ++ .cleared sig alive :: before →
    (∀ p, .forked p ∉ after) ∧
      ((∀ pc, .shut sig pc ∉ s.frames) → ∀ p ∈ alive, ∃ b, .killed p .term b ∈ after)

/-- What is owed to the workers that were alive when the flag was cleared. -/
def Owed (s : State) (after : List Event) (sig : Signal) (alive : Finset Nat) : Prop :=
  ∀ p ∈ alive, (∃ b, .killed p .term b ∈ after) ∨
    p ∈ s.children.pids ∧ ∃ pc, .shut sig pc ∈ s.frames ∧ pc.Pending s.pids p

structure Reaching (s : State) : Prop where
  stopped : s.running = false → s.main.spawning = false ∧ ∀ f ∈ s.frames, f.forking = false
  /-- A shutdown begins after the spawn loop. -/
  asked : ∀ sig pc, .shut sig pc ∈ s.frames → s.main.spawning = false
  /-- The handler that restarts a worker is not interrupted by a shutdown. -/
  foremost : ∀ f ∈ s.frames, f.forking → ∃ below, s.frames = f :: below
  quiet : s.running = true → ∀ sig alive, .cleared sig alive ∉ s.log
  reaches : ∀ after sig alive before, s.log = after ++ .cleared sig alive :: before →
    (∀ p, .forked p ∉ after) ∧ Owed s after sig alive

section Facts
variable {pids : Fin maxProcess → Nat} {running : Bool} {p : Nat}

@[simp] theorem MainPc.spawning_interrupt (pc : MainPc) : pc.interrupt.spawning = pc.spawning := by
  cases pc <;> rfl

theorem MainPc.spawning_next {pc pc' : MainPc} (h : pc.next pids running = some pc') :
    pc'.spawning = false := by
  cases pc <;> simp only [MainPc.next] at h <;> try contradiction
  all_goals (repeat' split at h) <;> cases h <;> rfl

theorem MainPc.spawning_of_inFlight {pc : MainPc} (h : pc.inFlight = some p) : pc.spawning := by
  cases pc <;> first | rfl | cases h

theorem Frame.forking_of_inFlight {f : Frame} (h : f.inFlight = some p) : f.forking := by
  cases f with
  | chld pc => cases pc <;> first | rfl | cases h
  | shut sig pc => cases h

theorem ChldPc.forking_next {pc pc' : ChldPc} (h : pc.next pids false = some pc')
    (hpc : pc.forking = false) : pc'.forking = false := by
  cases pc <;> simp only [ChldPc.next] at h <;> try contradiction
  all_goals (repeat' split at h) <;> cases h <;> first | rfl | contradiction

theorem exists_slot_after {n : Nat} (hn : n < maxProcess) (hzero : ¬ 0 < pids ⟨n, hn⟩)
    (hp : p ≠ 0) (h : ∃ i : Fin maxProcess, n ≤ i ∧ pids i = p) :
    ∃ i : Fin maxProcess, n + 1 ≤ i ∧ pids i = p := by
  obtain ⟨i, hi, hip⟩ := h
  have hne : n ≠ i := by
    rintro rfl
    rw [hip] at hzero
    omega
  exact ⟨i, by omega, hip⟩

theorem no_slot_after {n : Nat} (hn : ¬ n < maxProcess) :
    ¬ ∃ i : Fin maxProcess, n ≤ i ∧ pids i = p := by
  intro ⟨i, hi, _⟩
  omega

theorem slot_update {i : Fin maxProcess} {v : Nat} (hv : pids i = p → v = p) (j : Fin maxProcess)
    (hj : pids j = p) : Function.update pids i v j = p := by
  by_cases hji : j = i
  · subst hji
    rw [Function.update_self, hv hj]
  · rw [Function.update_of_ne hji, hj]

theorem ShutPc.Pending.next {pc pc' : ShutPc} (h : pc.Pending pids p)
    (hnext : pc.next pids = some pc') (hp : p ≠ 0) : pc'.Pending pids p := by
  cases pc <;> simp only [ShutPc.next] at hnext <;> try contradiction
  case test n =>
    split at hnext
    · next hn =>
      split at hnext
      · cases hnext
        exact h
      · next hzero =>
        cases hnext
        exact exists_slot_after hn hzero hp h
    · cases hnext
  case load n =>
    cases hnext
    obtain ⟨i, hi, hip⟩ := h
    rcases hi.lt_or_eq with hlt | rfl
    · exact .inr ⟨i, hlt, hip⟩
    · exact .inl hip

/-- Writing a slot that holds another pid, or writing the pid itself. -/
theorem ShutPc.Pending.update {pc : ShutPc} (h : pc.Pending pids p) {i : Fin maxProcess} {v : Nat}
    (hv : pids i = p → v = p) : pc.Pending (Function.update pids i v) p := by
  have hslot := slot_update hv
  cases pc with
  | flag => exact h
  | test n | load n =>
    obtain ⟨j, hj, hjp⟩ := h
    exact ⟨j, hj, hslot j hjp⟩
  | send n q =>
    rcases h with hq | ⟨j, hj, hjp⟩
    · exact .inl hq
    · exact .inr ⟨j, hj, hslot j hjp⟩

end Facts

section Steps
variable {s t : State} {act : Act}

theorem stopped_step (h : Reaching s) (hs : Step s act t) :
    t.running = false → t.main.spawning = false ∧ ∀ f ∈ t.frames, f.forking = false := by
  intro hrunning
  have replaced : ∀ {f f' : Frame} {below : List Frame}, s.frames = f :: below →
      s.running = false → f'.forking = false →
      s.main.spawning = false ∧ ∀ g ∈ f' :: below, g.forking = false := by
    intro f f' below top hstop hf'
    obtain ⟨hmain, hframes⟩ := h.stopped hstop
    refine ⟨hmain, fun g hg => ?_⟩
    rcases List.mem_cons.mp hg with rfl | hg
    · exact hf'
    · exact hframes g (mem_of_below top hg)
  cases hs with
  | chldArrives =>
    obtain ⟨hmain, hframes⟩ := h.stopped hrunning
    exact ⟨hmain, List.forall_mem_cons.mpr ⟨rfl, hframes⟩⟩
  | stopArrives =>
    obtain ⟨hmain, hframes⟩ := h.stopped hrunning
    exact ⟨(MainPc.spawning_interrupt _).trans hmain, List.forall_mem_cons.mpr ⟨rfl, hframes⟩⟩
  | mainMove _ next => exact ⟨MainPc.spawning_next next, (h.stopped hrunning).2⟩
  | @mainFork i p c _ main | @mainForkFail i _ main =>
    have hmain := (h.stopped hrunning).1
    rw [main, MainPc.spawning, decide_eq_false_iff_not] at hmain
    exact absurd i.isLt hmain
  | mainStore _ main =>
    have hmain := (h.stopped hrunning).1
    rw [main] at hmain
    cases hmain
  | mainKill | mainReap | mainDone => exact ⟨rfl, (h.stopped hrunning).2⟩
  | chldMove top next =>
    have hforking := (h.stopped hrunning).2 _ (mem_of_top top)
    have hstop : s.running = false := hrunning
    rw [hstop] at next
    exact replaced top hstop (ChldPc.forking_next next hforking)
  | chldReap top | chldClear top | chldForkFail top | chldStore top | shutMove top
  | shutSend top => exact replaced top hrunning rfl
  | chldFork top => cases (h.stopped hrunning).2 _ (mem_of_top top)
  | chldReturn top | shutReturn top =>
    obtain ⟨hmain, hframes⟩ := h.stopped hrunning
    exact ⟨hmain, fun f hf => hframes f (mem_of_below top hf)⟩
  | @shutFlag sig below top =>
    refine ⟨h.asked sig _ (mem_of_top top), fun f hf => ?_⟩
    rcases List.mem_cons.mp hf with rfl | hf
    · rfl
    · by_contra hforking
      obtain ⟨below', heq⟩ := h.foremost f (mem_of_below top hf)
        (Bool.of_not_eq_false hforking)
      rw [top] at heq
      cases heq
      exact hforking rfl
  | _ => exact h.stopped hrunning

theorem asked_step (h : Reaching s) (hst : Settled s act) (hs : Step s act t) :
    ∀ sig pc, .shut sig pc ∈ t.frames → t.main.spawning = false := by
  intro sig pc hpc
  cases hs with
  | chldArrives =>
    rcases List.mem_cons.mp hpc with heq | hpc
    · cases heq
    · exact h.asked sig pc hpc
  | stopArrives stop => exact (MainPc.spawning_interrupt _).trans (hst stop).1
  | mainMove idle | mainFork idle | mainForkFail idle | mainStore idle | mainKill idle
  | mainReap idle | mainDone idle =>
    exact absurd hpc (notMem_of_idle idle _)
  | chldMove top | chldReap top | chldClear top | chldFork top | chldForkFail top
  | chldStore top =>
    exact h.asked sig pc (shut_mem_of_chld top hpc)
  | chldReturn top | shutReturn top =>
    exact h.asked sig pc (mem_of_below top hpc)
  | shutFlag top | shutMove top | shutSend top => exact h.asked _ _ (mem_of_top top)
  | _ => exact h.asked sig pc hpc

theorem forking_foremost_step (hT : Tabled s) (h : Reaching s) (hst : Settled s act)
    (hs : Step s act t) : ∀ f ∈ t.frames, f.forking → ∃ below, t.frames = f :: below := by
  intro f hf hforking
  -- only a handler of SIGCHLD forks, and there is one at most
  have replaced : ∀ {pc : ChldPc} {f' : Frame} {below : List Frame}, s.frames = .chld pc :: below →
      f ∈ f' :: below → ∃ below', f' :: below = f :: below' := by
    intro pc f' below top hmem
    rcases List.mem_cons.mp hmem with rfl | hmem
    · exact ⟨below, rfl⟩
    · cases f with
      | chld pc' => exact absurd hmem (hT.chld_below top)
      | shut sig pc' => cases hforking
  have interrupted : ∀ {sig : Signal} {pc : ShutPc} {below : List Frame},
      s.frames = .shut sig pc :: below → f ∉ below := by
    intro sig pc below top hmem
    obtain ⟨below', heq⟩ := h.foremost f (mem_of_below top hmem) hforking
    rw [top] at heq
    cases heq
    cases hforking
  cases hs with
  | chldArrives unblocked =>
    rcases List.mem_cons.mp hf with rfl | hf
    · cases hforking
    · cases f with
      | chld pc => exact absurd rfl (unblocked _ hf)
      | shut sig pc => cases hforking
  | stopArrives stop =>
    rcases List.mem_cons.mp hf with rfl | hf
    · cases hforking
    · cases ((hst stop).2 f hf).symm.trans hforking
  | chldMove top | chldReap top | chldClear top | chldFork top | chldForkFail top
  | chldStore top => exact replaced top hf
  | chldReturn top =>
    cases f with
    | chld pc' => exact absurd hf (hT.chld_below top)
    | shut sig pc' => cases hforking
  | shutFlag top | shutMove top | shutSend top =>
    rcases List.mem_cons.mp hf with rfl | hf
    · cases hforking
    · exact absurd hf (interrupted top)
  | shutReturn top => exact absurd hf (interrupted top)
  | _ => exact h.foremost f hf hforking

theorem quiet_step (h : Reaching s) (hs : Step s act t) :
    t.running = true → ∀ sig alive, .cleared sig alive ∉ t.log := by
  intro hrunning sig alive hmem
  cases hs with
  | mainFork | mainKill | chldFork | shutSend =>
    rcases List.mem_cons.mp hmem with heq | hmem
    · cases heq
    · exact h.quiet hrunning sig alive hmem
  | shutFlag => cases hrunning
  | _ => exact h.quiet hrunning sig alive hmem

theorem Tabled.pending_update (hT : Tabled s) {chld : ChldPc} {below : List Frame} {p q v : Nat}
    {i : Fin maxProcess} {pc : ShutPc} (top : s.frames = .chld chld :: below)
    (hheld : chld.held = some q) (hslot : chld.slot = some i) (hp : p ∈ s.children.pids)
    (hv : chld.inFlight = some p → v = p) (h : pc.Pending s.pids p) :
    pc.Pending (Function.update s.pids i v) p := by
  refine h.update fun hi => hv ?_
  by_contra hflight
  exact hT.slot_ne top hheld hslot hp hflight hi

theorem shut_cases {sig sig' : Signal} {pc pc' : ShutPc} {below : List Frame}
    (top : s.frames = .shut sig' pc' :: below) (h : .shut sig pc ∈ s.frames) :
    (sig = sig' ∧ pc = pc') ∨ .shut sig pc ∈ below := by
  rw [top] at h
  exact (List.mem_cons.mp h).imp_left Frame.shut.inj

/-- A worker the shutdown has before it stays before it and stays a child, until it is sent
SIGTERM. -/
theorem pending_step (hT : Tabled s) (hst : Settled s act) (hs : Step s act t) {sig : Signal}
    {p : Nat} (hp : p ∈ s.children.pids)
    (h : ∃ pc, .shut sig pc ∈ s.frames ∧ pc.Pending s.pids p) :
    (p ∈ t.children.pids ∧ ∃ pc, .shut sig pc ∈ t.frames ∧ pc.Pending t.pids p) ∨
      ∃ b, t.log = .killed p .term b :: s.log := by
  obtain ⟨pc, hpc, hpending⟩ := h
  have below_chld : ∀ {pc' : ChldPc} {below : List Frame}, s.frames = .chld pc' :: below →
      .shut sig pc ∈ below := by
    intro pc' below top
    rw [top] at hpc
    exact (List.mem_cons.mp hpc).resolve_left nofun
  cases hs with
  | die died =>
    rw [(Children.die_spec died).1]
    exact .inl ⟨hp, pc, hpc, hpending⟩
  | chldArrives | stopArrives => exact .inl ⟨hp, pc, List.mem_cons_of_mem _ hpc, hpending⟩
  | mainMove idle | mainFork idle | mainForkFail idle | mainStore idle | mainKill idle
  | mainReap idle | mainDone idle => exact absurd hpc (notMem_of_idle idle _)
  | chldMove top | chldForkFail top =>
    exact .inl ⟨hp, pc, List.mem_cons_of_mem _ (below_chld top), hpending⟩
  | @chldReap q status below top ended =>
    have hne : p ≠ q := by
      rintro rfl
      exact hst _ hpc hpending
    exact .inl ⟨Finset.mem_erase_of_ne_of_mem hne hp, pc,
      List.mem_cons_of_mem _ (below_chld top), hpending⟩
  | chldReturn top => exact .inl ⟨hp, pc, below_chld top, hpending⟩
  | chldClear top =>
    exact .inl ⟨hp, pc, List.mem_cons_of_mem _ (below_chld top),
      hT.pending_update top rfl rfl hp nofun hpending⟩
  | chldFork top forked =>
    exact .inl ⟨Children.mem_fork forked hp, pc, List.mem_cons_of_mem _ (below_chld top), hpending⟩
  | chldStore top =>
    exact .inl ⟨hp, pc, List.mem_cons_of_mem _ (below_chld top),
      hT.pending_update top rfl rfl hp Option.some.inj hpending⟩
  | shutFlag top =>
    rcases shut_cases top hpc with ⟨rfl, rfl⟩ | hpc
    · cases hpending
    · exact .inl ⟨hp, pc, List.mem_cons_of_mem _ hpc, hpending⟩
  | shutMove top next =>
    rcases shut_cases top hpc with ⟨rfl, rfl⟩ | hpc
    · exact .inl ⟨hp, _, List.mem_cons_self, hpending.next next (Children.ne_zero_of_mem hp)⟩
    · exact .inl ⟨hp, pc, List.mem_cons_of_mem _ hpc, hpending⟩
  | @shutSend sig' i q below top =>
    rcases shut_cases top hpc with ⟨rfl, rfl⟩ | hpc
    · rcases hpending with rfl | ⟨j, hj, hjp⟩
      · exact .inr ⟨_, rfl⟩
      · exact .inl ⟨hp, .test (i + 1), List.mem_cons_self, j, hj, hjp⟩
    · exact .inl ⟨hp, pc, List.mem_cons_of_mem _ hpc, hpending⟩
  | shutReturn top last =>
    rcases shut_cases top hpc with ⟨rfl, rfl⟩ | hpc
    · obtain ⟨i, hi, -⟩ := hpending
      exact absurd i.isLt (by omega)
    · exact .inl ⟨hp, pc, hpc, hpending⟩

theorem Owed.step (hT : Tabled s) (hst : Settled s act) (hs : Step s act t) {sig : Signal}
    {alive : Finset Nat} {after new : List Event} (h : Owed s after sig alive)
    (hlog : t.log = new ++ s.log) : Owed t (new ++ after) sig alive := by
  intro p hp
  rcases h p hp with ⟨b, hb⟩ | ⟨hchild, hpending⟩
  · exact .inl ⟨b, List.mem_append_right _ hb⟩
  · rcases pending_step hT hst hs hchild hpending with hstill | ⟨b, hkilled⟩
    · exact .inr hstill
    · have hnew : new = [.killed p .term b] := by
        have happend : new ++ s.log = [.killed p .term b] ++ s.log := hlog.symm.trans hkilled
        exact List.append_cancel_right happend
      exact .inl ⟨b, by simp [hnew]⟩

theorem log_step (h : Reaching s) (hs : Step s act t) :
    t.log = s.log ∨ (∃ p, t.log = .forked p :: s.log ∧ s.running = true) ∨
      (∃ p sig b, t.log = .killed p sig b :: s.log) ∨
      ∃ sig below, s.frames = .shut sig .flag :: below ∧
        t.log = .cleared sig s.children.alive :: s.log ∧ t.pids = s.pids ∧
        t.children = s.children ∧ t.frames = .shut sig (.test 0) :: below := by
  cases hs with
  | @mainFork i p c idle main =>
    refine .inr (.inl ⟨p, rfl, ?_⟩)
    by_contra hstop
    have hmain := (h.stopped (Bool.of_not_eq_true hstop)).1
    rw [main, MainPc.spawning, decide_eq_false_iff_not] at hmain
    exact absurd i.isLt hmain
  | @chldFork pid i p c below top =>
    refine .inr (.inl ⟨p, rfl, ?_⟩)
    by_contra hstop
    cases (h.stopped (Bool.of_not_eq_true hstop)).2 _ (mem_of_top top)
  | mainKill | shutSend => exact .inr (.inr (.inl ⟨_, _, _, rfl⟩))
  | @shutFlag sig below top => exact .inr (.inr (.inr ⟨sig, below, top, rfl, rfl, rfl, rfl⟩))
  | _ => exact .inl rfl

theorem owed_cleared (hT : Tabled s) (h : Reaching s) {sig : Signal} {below : List Frame}
    (top : s.frames = .shut sig .flag :: below) (hpids : t.pids = s.pids)
    (hchildren : t.children = s.children) (hframes : t.frames = .shut sig (.test 0) :: below) :
    Owed t [] sig s.children.alive := by
  intro p hp
  have hrunning := Children.mem_alive.mp hp
  right
  rw [hpids, hchildren, hframes]
  refine ⟨Children.mem_of_isRunning hrunning, _, List.mem_cons_self, ?_⟩
  rcases hT.cover p hrunning with ⟨i, hi⟩ | hmain | ⟨f, hf, hfp⟩
  · exact ⟨i, Nat.zero_le _, hi⟩
  · have hspawning := h.asked sig _ (mem_of_top top)
    cases hspawning.symm.trans (MainPc.spawning_of_inFlight hmain)
  · have hforking := Frame.forking_of_inFlight hfp
    obtain ⟨below', heq⟩ := h.foremost f hf hforking
    rw [top] at heq
    cases heq
    cases hforking

theorem reaches_step (hT : Tabled s) (h : Reaching s) (hst : Settled s act) (hs : Step s act t) :
    ∀ after sig alive before, t.log = after ++ .cleared sig alive :: before →
      (∀ p, .forked p ∉ after) ∧ Owed t after sig alive := by
  intro after sig alive before hlog
  rcases log_step h hs with heq | ⟨p, heq, hrunning⟩ | ⟨p, sig', b, heq⟩ |
    ⟨sig', below, top, heq, hpids, hchildren, hframes⟩
  · obtain ⟨hforks, howed⟩ := h.reaches after sig alive before (heq ▸ hlog)
    exact ⟨hforks, howed.step hT hst hs (show t.log = [] ++ s.log from heq)⟩
  · -- the server runs, so the flag was not cleared before
    rw [heq] at hlog
    have hmem : .cleared sig alive ∈ Event.forked p :: s.log := hlog ▸ by simp
    exact absurd ((List.mem_cons.mp hmem).resolve_left nofun) (h.quiet hrunning sig alive)
  · rcases List.cons_eq_append_iff.mp (heq ▸ hlog) with ⟨-, hcons⟩ | ⟨after', rfl, hlog'⟩
    · cases hcons
    · obtain ⟨hforks, howed⟩ := h.reaches after' sig alive before hlog'
      have hlog_t : t.log = [.killed p sig' b] ++ s.log := heq
      refine ⟨fun q hq => ?_, howed.step hT hst hs hlog_t⟩
      exact hforks q ((List.mem_cons.mp hq).resolve_left nofun)
  · rcases List.cons_eq_append_iff.mp (heq ▸ hlog) with ⟨rfl, hcons⟩ | ⟨after', rfl, hlog'⟩
    · cases hcons
      exact ⟨nofun, owed_cleared hT h top hpids hchildren hframes⟩
    · obtain ⟨hforks, howed⟩ := h.reaches after' sig alive before hlog'
      have hlog_t : t.log = [.cleared sig' s.children.alive] ++ s.log := heq
      refine ⟨fun q hq => ?_, howed.step hT hst hs hlog_t⟩
      exact hforks q ((List.mem_cons.mp hq).resolve_left nofun)

theorem Reaching.step (hT : Tabled s) (h : Reaching s) (hst : Settled s act) (hs : Step s act t) :
    Reaching t where
  stopped := stopped_step h hs
  asked := asked_step h hst hs
  foremost := forking_foremost_step hT h hst hs
  quiet := quiet_step h hs
  reaches := reaches_step hT h hst hs

end Steps

theorem reaching_start : Reaching .start where
  stopped := nofun
  asked := nofun
  foremost := nofun
  quiet := nofun
  reaches := by
    intro after sig alive before hlog
    exact absurd hlog.symm (List.append_ne_nil_of_right_ne_nil _ (List.cons_ne_nil _ _))

/-- In a run of settled steps no worker is forked after the flag was cleared, and the handler
that cleared it sends SIGTERM to every worker that was alive. -/
theorem shutdown_reaches_workers {s : State} (h : machine.ReachableBy Settled s) :
    ShutdownReaches s := by
  have hinv : machine.Invariant Settled fun s => Tabled s ∧ Reaching s :=
    (tabled_invariant Settled).with (by rintro s rfl; exact reaching_start)
      fun _ _ _ hT h hst next => h.step hT hst (step_cases next)
  intro after sig alive before hlog
  obtain ⟨hforks, howed⟩ := (hinv.holds h).2.reaches after sig alive before hlog
  refine ⟨hforks, fun hreturned p hp => ?_⟩
  rcases howed p hp with hkilled | ⟨-, pc, hpc, -⟩
  · exact hkilled
  · exact absurd hpc (hreturned pc)

/-- SIGTERM after one worker was stored: the spawn loop goes on to fork the next. -/
theorem spawn_loop_outlives_shutdown : ¬ ∀ s, machine.Reachable s → ShutdownReaches s := by
  intro h
  have hrun : (machine.run (fun _ _ => True) .start
      [.fork 101, .tick, .deliver .term, .tick, .tick, .tick, .tick, .tick, .tick, .tick, .tick,
        .fork 102]).map (·.log) =
      some ([.forked 102, .killed 101 .term true] ++ .cleared .term {101} :: [.forked 101]) := by
    decide +kernel
  obtain ⟨s, hs, hlog⟩ := Option.map_eq_some_iff.mp hrun
  have hreaches := h s (Machine.ReachableBy.run (.init rfl) hs) _ _ _ _ hlog
  exact hreaches.1 102 (by simp)

/-- SIGTERM while the server runs: the handler signals the workers and returns. -/
theorem shutdown_reaches_workers_term :
    ∃ s, s.log.length = 9 ∧ s.frames = [] ∧ ShutdownReaches s := by
  have hrun : (machine.run Settled .start
      ([.fork 101, .tick, .fork 102, .tick, .fork 103, .tick, .fork 104, .tick, .tick,
        .deliver .term] ++ List.replicate 14 .tick)).map (fun s => (s.log.length, s.frames)) =
      some (9, []) := by decide +kernel
  obtain ⟨s, hs, hlog⟩ := Option.map_eq_some_iff.mp hrun
  obtain ⟨hlength, hframes⟩ := Prod.mk.inj hlog
  exact ⟨s, hlength, hframes, shutdown_reaches_workers (Machine.ReachableBy.run (.init rfl) hs)⟩

end MinhServer.Master
