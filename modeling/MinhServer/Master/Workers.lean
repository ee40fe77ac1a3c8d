import MinhServer.Master.Step

namespace MinhServer.Master

/-- The function that forked a worker. -/
inductive Forker where
  | runMutilProcessServer
  | restartWorker
  deriving DecidableEq, Repr

/-- Positions of a worker. -/
inductive WorkerPc where
  /-- before `signal(SIGCHLD, SIG_DFL)` -/
  | resetChld
  | resetInt
  | resetTerm
  /-- in the child of `restartWorker`, before `server_func` -/
  | restarted
  /-- in `runServer`, which does not return -/
  | serving
  deriving DecidableEq, Repr

/-- `handled` are the signals whose handler is that of the master, `masked` those that were
blocked when it was forked. -/
structure WorkerProcess where
  forker : Forker
  pc : WorkerPc
  handled : Signal → Bool
  masked : List Signal
  frames : List Frame
  pids : Fin maxProcess → Nat
  running : Bool

/-- The signals of `setupSignalHandlers`. -/
def setupSignals (sig : Signal) : Bool := sig = .chld || sig.isStop

/-- The copy that `fork` makes: in the main loop no handler is active. -/
def State.child (s : State) : WorkerProcess where
  forker := if s.frames = [] then .runMutilProcessServer else .restartWorker
  pc := if s.frames = [] then .resetChld else .restarted
  handled := setupSignals
  masked := s.frames.map Frame.signal
  frames := []
  pids := s.pids
  running := s.running

namespace WorkerProcess

/-- `signal(sig, SIG_DFL)` -/
def reset (w : WorkerProcess) (sig : Signal) : WorkerProcess :=
  { w with handled := Function.update w.handled sig false }

def goto (w : WorkerProcess) (pc : WorkerPc) : WorkerProcess := { w with pc := pc }

def mainTick (w : WorkerProcess) : WorkerProcess :=
  match w.pc with
  | .resetChld => (w.reset .chld).goto .resetInt
  | .resetInt => (w.reset .int).goto .resetTerm
  | .resetTerm => (w.reset .term).goto .serving
  | .restarted => w.goto .serving
  | .serving => w

/-- The next instruction, and the pid it sends SIGTERM to. -/
def tick (w : WorkerProcess) : WorkerProcess × Option Nat :=
  match w.frames with
  | [] => (w.mainTick, none)
  -- `waitpid` has no child to return
  | .chld _ :: below => ({ w with frames := below }, none)
  | .shut sig .flag :: below =>
    ({ w with running := false, frames := .shut sig (.test 0) :: below }, none)
  | .shut sig (.send i p) :: below => ({ w with frames := .shut sig (.test (i + 1)) :: below }, some p)
  | .shut sig pc :: below =>
    match pc.next w.pids with
    | some pc => ({ w with frames := .shut sig pc :: below }, none)
    | none => ({ w with frames := below }, none)

def Blocks (w : WorkerProcess) (sig : Signal) : Prop :=
  sig ∈ w.masked ∨ ∃ f ∈ w.frames, f.signal = sig

instance (w : WorkerProcess) (sig : Signal) : Decidable (w.Blocks sig) :=
  inferInstanceAs (Decidable (sig ∈ w.masked ∨ ∃ f ∈ w.frames, f.signal = sig))

def interrupted (w : WorkerProcess) (sig : Signal) : WorkerProcess :=
  { w with frames := (if sig = .chld then .chld .wait else .shut sig .flag) :: w.frames }

end WorkerProcess

/-- `sent` has the sender and the receiver of each SIGTERM of a worker, latest first. -/
structure System where
  master : State
  workers : Nat → Option WorkerProcess
  sent : List (Nat × Nat)

inductive System.Act where
  | master (act : Master.Act)
  /-- the next instruction of worker `p` -/
  | tick (p : Nat)
  /-- a signal is delivered to worker `p`, whoever sent it -/
  | signal (p : Nat) (sig : Signal)
  deriving DecidableEq, Repr

namespace System

def start : System := ⟨.start, fun _ => none, []⟩

def setWorker (s : System) (p : Nat) (w : WorkerProcess) : System :=
  { s with workers := Function.update s.workers p (some w) }

/-- The worker `p`, if it has not ended. -/
def worker (s : System) (p : Nat) : Option WorkerProcess :=
  if s.master.children.isRunning p then s.workers p else none

def tick (s : System) (p : Nat) (w : WorkerProcess) : System :=
  { s.setWorker p w.tick.1 with sent := (w.tick.2.map (p, ·)).toList ++ s.sent }

/-- A blocked signal waits; one without a handler ends the worker, but for SIGCHLD. -/
def signal (s : System) (p : Nat) (w : WorkerProcess) (sig : Signal) : Option System :=
  if w.Blocks sig then none
  else if w.handled sig then some (s.setWorker p (w.interrupted sig))
  else if sig.isStop then
    (s.master.step (.die p (.signaled sig))).map fun m => { s with master := m }
  else none

def step (s : System) (act : Act) : Option System :=
  match act with
  | .master (.fork p) =>
    (s.master.step (.fork p)).map fun m =>
      { s with master := m, workers := Function.update s.workers p (some s.master.child) }
  | .master act => (s.master.step act).map fun m => { s with master := m }
  | .tick p => (s.worker p).map fun w => s.tick p w
  | .signal p sig => (s.worker p).bind fun w => s.signal p w sig

end System

/-- Any interleaving of the master and its workers, and any signals to them. -/
def system : Machine System System.Act where
  init s := s = .start
  step := System.step

inductive SystemStep (s : System) : System.Act → System → Prop where
  | forked {p m} (next : s.master.step (.fork p) = some m) :
      SystemStep s (.master (.fork p))
        { s with master := m, workers := Function.update s.workers p (some s.master.child) }
  | mastered {act m} (next : s.master.step act = some m) (notFork : ∀ p, act ≠ .fork p) :
      SystemStep s (.master act) { s with master := m }
  | ticked {p w} (worker : s.worker p = some w) : SystemStep s (.tick p) (s.tick p w)
  | handled {p w sig} (worker : s.worker p = some w) (unblocked : ¬ w.Blocks sig)
      (handler : w.handled sig) : SystemStep s (.signal p sig) (s.setWorker p (w.interrupted sig))
  | ended {p w sig m} (worker : s.worker p = some w) (unblocked : ¬ w.Blocks sig)
      (default : w.handled sig = false) (stop : sig.isStop)
      (next : s.master.step (.die p (.signaled sig)) = some m) :
      SystemStep s (.signal p sig) { s with master := m }

section Steps
variable {s t : System} {act : System.Act} {p q : Nat} {w : WorkerProcess} {sig : Signal}

theorem signal_cases (hw : s.worker p = some w) (h : s.signal p w sig = some t) :
    SystemStep s (.signal p sig) t := by
  unfold System.signal at h
  split at h
  · cases h
  · next unblocked =>
    split at h
    · next handler =>
      cases h
      exact .handled hw unblocked handler
    · next default =>
      split at h
      · next stop =>
        obtain ⟨m, hm, rfl⟩ := Option.map_eq_some_iff.mp h
        exact .ended hw unblocked (Bool.of_not_eq_true default) stop hm
      · cases h

theorem system_cases (h : s.step act = some t) : SystemStep s act t := by
  unfold System.step at h
  split at h
  · obtain ⟨m, hm, rfl⟩ := Option.map_eq_some_iff.mp h
    exact .forked hm
  · next act hfork =>
    obtain ⟨m, hm, rfl⟩ := Option.map_eq_some_iff.mp h
    exact .mastered hm fun p heq => hfork p (heq ▸ rfl)
  · obtain ⟨w, hw, rfl⟩ := Option.map_eq_some_iff.mp h
    exact .ticked hw
  · obtain ⟨w, hw, hsignal⟩ := Option.bind_eq_some_iff.mp h
    exact signal_cases hw hsignal

theorem reachable_step {s t : State} {act : Act} (hs : machine.Reachable s)
    (h : s.step act = some t) : machine.Reachable t := .step hs trivial h

theorem master_reachable (h : system.Reachable s) : machine.Reachable s.master := by
  have hinv : system.Invariant (fun _ _ => True) fun s => machine.Reachable s.master := by
    refine ⟨fun s hs => ?_, fun s act t hs _ hnext => ?_⟩
    · cases hs
      exact .init rfl
    · cases system_cases hnext with
      | forked next | mastered next | ended _ _ _ _ next => exact reachable_step hs next
      | ticked | handled => exact hs
  exact hinv.holds h

theorem running_step {s t : State} {act : Act} (h : s.step act = some t)
    (hp : t.children.isRunning p) : s.children.isRunning p ∨ act = .fork p := by
  cases step_cases h with
  | die died => exact .inl ((Children.die_spec died).2 p hp)
  | mainFork _ _ forked | chldFork _ forked =>
    obtain ⟨-, -, -, hrunning⟩ := Children.fork_spec forked
    rcases hrunning p hp with rfl | hold
    · exact .inr rfl
    · exact .inl hold
  | mainReap | chldReap => exact .inl (Children.isRunning_remove hp).2
  | _ => exact .inl hp

theorem exists_die {s : State} (hp : s.children.isRunning p) (status : Status) :
    ∃ m, s.step (.die p status) = some m ∧ m.children.isRunning p = false := by
  have hstep : s.step (.die p status) =
      (s.children.die p status).map fun c => { s with children := c } := rfl
  rw [hstep, Children.die, dif_pos hp]
  refine ⟨_, rfl, ?_⟩
  simp [Children.isRunning, Proc.isRunning]

theorem worker_eq_some : s.worker p = some w ↔
    s.master.children.isRunning p ∧ s.workers p = some w := by
  unfold System.worker
  split
  · next hrunning => simp [hrunning]
  · next hended => simp [hended]

end Steps

/-- The signals that a worker of the spawn loop still handles. -/
def WorkerPc.handles : WorkerPc → Signal → Bool
  | .resetChld, sig => setupSignals sig
  | .resetInt, sig => sig.isStop
  | .resetTerm, sig => sig = .term
  | .restarted, _ | .serving, _ => false

/-- What the function that forked a worker and the position of the worker say about its
signals. -/
inductive WorkerProcess.Disposed (w : WorkerProcess) : Prop where
  | spawned (forker : w.forker = .runMutilProcessServer) (unmasked : w.masked = [])
      (reset : w.handled = w.pc.handles) (idle : w.pc = .serving → w.frames = [])
  | restarted (forker : w.forker = .restartWorker) (inherited : w.handled = setupSignals)
      (entered : w.pc = .restarted ∨ w.pc = .serving)

theorem disposed_child (s : State) : s.child.Disposed := by
  by_cases idle : s.frames = []
  · apply WorkerProcess.Disposed.spawned
    · simp [State.child, idle]
    · simp [State.child, idle]
    · funext sig
      simp [State.child, idle, WorkerPc.handles]
    · simp [State.child, idle]
  · apply WorkerProcess.Disposed.restarted
    · simp [State.child, idle]
    · rfl
    · simp [State.child, idle]

namespace WorkerProcess
variable {w : WorkerProcess} {sig : Signal}

theorem handles_reset (h : w.handled = w.pc.handles) :
    w.mainTick.handled = w.mainTick.pc.handles := by
  funext sig
  cases hpc : w.pc <;> simp only [mainTick, hpc, goto, WorkerProcess.reset, h]
  case resetChld | resetInt | resetTerm => cases sig <;> rfl
  all_goals rfl

theorem Disposed.mainTick (h : w.Disposed) (idle : w.frames = []) : w.mainTick.Disposed := by
  have same : w.mainTick.forker = w.forker ∧ w.mainTick.masked = w.masked ∧
      w.mainTick.frames = w.frames := by
    unfold WorkerProcess.mainTick
    split <;> exact ⟨rfl, rfl, rfl⟩
  obtain ⟨hforker, hmasked, hframes⟩ := same
  cases h with
  | spawned forker unmasked reset =>
    apply Disposed.spawned
    · exact hforker.trans forker
    · exact hmasked.trans unmasked
    · exact handles_reset reset
    · exact fun _ => hframes.trans idle
  | restarted forker inherited entered =>
    apply Disposed.restarted
    · exact hforker.trans forker
    · rcases entered with hpc | hpc <;> simp [WorkerProcess.mainTick, hpc, goto, inherited]
    · rcases entered with hpc | hpc <;> simp [WorkerProcess.mainTick, hpc, goto]

theorem Disposed.inHandler (h : w.Disposed) (active : w.frames ≠ []) {v : WorkerProcess}
    (hforker : v.forker = w.forker) (hpc : v.pc = w.pc) (hhandled : v.handled = w.handled)
    (hmasked : v.masked = w.masked) : v.Disposed := by
  cases h with
  | spawned forker unmasked reset idle =>
    apply Disposed.spawned
    · exact hforker.trans forker
    · exact hmasked.trans unmasked
    · rw [hhandled, hpc, reset]
    · exact fun hserving => absurd (idle (hpc ▸ hserving)) active
  | restarted forker inherited entered =>
    exact .restarted (hforker.trans forker) (hhandled.trans inherited) (hpc ▸ entered)

theorem Disposed.tick (h : w.Disposed) : w.tick.1.Disposed := by
  unfold WorkerProcess.tick
  split
  · next idle => exact h.mainTick idle
  · next top => exact h.inHandler (by simp [top]) rfl rfl rfl rfl
  · next top => exact h.inHandler (by simp [top]) rfl rfl rfl rfl
  · next top => exact h.inHandler (by simp [top]) rfl rfl rfl rfl
  · next top =>
    split <;> exact h.inHandler (by simp [top]) rfl rfl rfl rfl

/-- A worker of the spawn loop that serves handles no signal. -/
theorem Disposed.interrupted (h : w.Disposed) (handler : w.handled sig) :
    (w.interrupted sig).Disposed := by
  cases h with
  | spawned forker unmasked reset =>
    refine .spawned forker unmasked reset fun hserving => ?_
    rw [reset, show w.pc = .serving from hserving] at handler
    cases handler
  | restarted forker inherited entered => exact .restarted forker inherited entered

end WorkerProcess

def AllDisposed (s : System) : Prop := ∀ p w, s.workers p = some w → w.Disposed

section Runs
variable {s t : System} {act : System.Act} {p : Nat} {w : WorkerProcess} {sig : Signal}

theorem AllDisposed.update (h : AllDisposed s) (hw : w.Disposed) (q : Nat) :
    ∀ p v, Function.update s.workers q (some w) p = some v → v.Disposed := by
  intro p v hv
  by_cases hpq : p = q
  · subst hpq
    rw [Function.update_self] at hv
    cases hv
    exact hw
  · rw [Function.update_of_ne hpq] at hv
    exact h p v hv

theorem AllDisposed.step (h : AllDisposed s) (hs : SystemStep s act t) : AllDisposed t := by
  cases hs with
  | @forked p => exact h.update (disposed_child s.master) p
  | mastered => exact h
  | @ticked p w worker => exact h.update (h p w (worker_eq_some.mp worker).2).tick p
  | @handled p w sig worker unblocked handler =>
    exact h.update ((h p w (worker_eq_some.mp worker).2).interrupted handler) p
  | ended => exact h

theorem allDisposed_invariant (P : System → System.Act → Prop) :
    system.Invariant P AllDisposed where
  init := by
    rintro s rfl p w hw
    cases hw
  step := fun _ _ _ h _ next => h.step (system_cases next)

/-- The signals that worker `p` sent. -/
def System.sentBy (s : System) (p : Nat) : List (Nat × Nat) := s.sent.filter fun k => k.1 = p

/-- SIGINT and SIGTERM end worker `p`, and it sends no signal after that. -/
def ObeysStop (s : System) (p : Nat) : Prop :=
  ∀ sig, sig.isStop → ∃ t, s.step (.signal p sig) = some t ∧
    t.master.children.isRunning p = false ∧
      ∀ u, (system.startingAt t).ReachableBy (fun _ act => act ≠ .master (.fork p)) u →
        u.sentBy p = s.sentBy p

theorem sentBy_step (hs : SystemStep s act t) (hp : s.master.children.isRunning p = false)
    (hact : act ≠ .master (.fork p)) :
    t.master.children.isRunning p = false ∧ t.sentBy p = s.sentBy p := by
  have ended : ∀ {act : Act} {m : State}, s.master.step act = some m → act ≠ .fork p →
      m.children.isRunning p = false := by
    intro act m next hfork
    by_contra hrunning
    rcases running_step next (Bool.of_not_eq_false hrunning) with hold | heq
    · rw [hp] at hold
      cases hold
    · exact hfork heq
  cases hs with
  | forked next => exact ⟨ended next fun heq => hact (heq ▸ rfl), rfl⟩
  | mastered next notFork => exact ⟨ended next (notFork p), rfl⟩
  | @ticked q w worker =>
    have hne : q ≠ p := by
      rintro rfl
      rw [(worker_eq_some.mp worker).1] at hp
      cases hp
    refine ⟨hp, ?_⟩
    rw [System.sentBy, System.tick, List.filter_append]
    cases w.tick.2 with
    | none => rfl
    | some r => simp [hne, System.sentBy]
  | handled => exact ⟨hp, rfl⟩
  | ended _ _ _ _ next => exact ⟨ended next nofun, rfl⟩

theorem sentBy_run (hp : s.master.children.isRunning p = false) {u : System}
    (hu : (system.startingAt s).ReachableBy (fun _ act => act ≠ .master (.fork p)) u) :
    u.master.children.isRunning p = false ∧ u.sentBy p = s.sentBy p := by
  have hinv : (system.startingAt s).Invariant (fun _ act => act ≠ .master (.fork p)) fun u =>
      u.master.children.isRunning p = false ∧ u.sentBy p = s.sentBy p := by
    refine ⟨fun u hu => ?_, fun u act v hu hact next => ?_⟩
    · cases hu
      exact ⟨hp, rfl⟩
    · obtain ⟨hended, hsent⟩ := sentBy_step (system_cases next) hu.1 hact
      exact ⟨hended, hsent.trans hu.2⟩
  exact hinv.holds hu

/-- A worker in `runServer` obeys SIGINT and SIGTERM if and only if the spawn loop forked it:
the child of `restartWorker` keeps the handler of the master. -/
theorem obeys_stop_iff (h : system.Reachable s) (hw : s.worker p = some w)
    (serving : w.pc = .serving) : ObeysStop s p ↔ w.forker = .runMutilProcessServer := by
  obtain ⟨hrunning, hworker⟩ := worker_eq_some.mp hw
  have hdisposed := (allDisposed_invariant _).holds h p w hworker
  constructor
  · intro hobeys
    cases hdisposed with
    | spawned forker => exact forker
    | restarted forker inherited =>
      obtain ⟨t, hstep, hended, -⟩ := hobeys .term rfl
      cases system_cases hstep with
      | handled => cases hended.symm.trans hrunning
      | ended worker _ default =>
        cases hw.symm.trans worker
        rw [inherited] at default
        cases default
  · intro hforker sig hsig
    cases hdisposed with
    | restarted forker => cases hforker.symm.trans forker
    | spawned forker unmasked reset idle =>
      have hblocks : ¬ w.Blocks sig := by simp [WorkerProcess.Blocks, unmasked, idle serving]
      have hdefault : w.handled sig = false := by rw [reset, serving, WorkerPc.handles]
      obtain ⟨m, hm, hended⟩ := exists_die hrunning (.signaled sig)
      have hstep : s.step (.signal p sig) = some { s with master := m } := by
        rw [System.step, hw, Option.bind_some, System.signal, if_neg hblocks, hdefault,
          if_neg Bool.false_ne_true, if_pos hsig, hm, Option.map_some]
      exact ⟨_, hstep, hended, fun u hu => (sentBy_run hended hu).2⟩

/-- The first worker has made its three calls of `signal`. -/
theorem obeys_stop_spawned : ∃ s w, (s.worker 101 = some w ∧ w.pc = .serving) ∧
    ObeysStop s 101 := by
  have hrun : ((system.run (fun _ _ => True) .start
      [.master (.fork 101), .tick 101, .tick 101, .tick 101]).bind fun s =>
        (s.worker 101).map fun w => (w.pc, w.forker)) =
      some (.serving, .runMutilProcessServer) := by
    decide +kernel
  obtain ⟨s, hs, hworker⟩ := Option.bind_eq_some_iff.mp hrun
  obtain ⟨w, hw, heq⟩ := Option.map_eq_some_iff.mp hworker
  obtain ⟨hserving, hforker⟩ := Prod.mk.inj heq
  have hreachable := Machine.ReachableBy.run (.init rfl) hs
  exact ⟨s, w, ⟨hw, hserving⟩, (obeys_stop_iff hreachable hw hserving).mpr hforker⟩

/-- The first worker crashes, and SIGTERM to the one that replaces it does not end it. -/
theorem restarted_worker_disobeys : ¬ ∀ s, system.Reachable s → ∀ p w, s.worker p = some w →
    w.pc = .serving → ObeysStop s p := by
  intro h
  have hrun : ((system.run (fun _ _ => True) .start
      ([.master (.fork 101), .master .tick, .master (.fork 102), .master .tick,
        .master (.die 101 (.exited 1)), .master (.deliver .chld), .master (.reap 101)] ++
        List.replicate 5 (.master .tick) ++
        [.master (.fork 103), .master .tick, .tick 103])).bind fun s =>
        (s.worker 103).map fun w => (w.pc,
          (s.step (.signal 103 .term)).map fun t => t.master.children.isRunning 103)) =
      some (.serving, some true) := by
    decide +kernel
  obtain ⟨s, hs, hworker⟩ := Option.bind_eq_some_iff.mp hrun
  obtain ⟨w, hw, heq⟩ := Option.map_eq_some_iff.mp hworker
  obtain ⟨hserving, hsurvives⟩ := Prod.mk.inj heq
  obtain ⟨t, hstep, hended, -⟩ := h s (Machine.ReachableBy.run (.init rfl) hs) 103 w hw hserving
    .term rfl
  rw [hstep, Option.map_some, hended] at hsurvives
  cases hsurvives

/-- Worker `p` runs alone. -/
abbrev Alone (p : Nat) (sig : Signal) (_ : System) (act : System.Act) : Prop :=
  act = .tick p ∨ act = .signal p sig

theorem worker_tick {v : WorkerProcess} {r : Option Nat} (hw : s.worker p = some w)
    (htick : w.tick = (v, r)) : (s.tick p w).worker p = some v := by
  rw [worker_eq_some, System.tick, htick]
  exact ⟨(worker_eq_some.mp hw).1, Function.update_self ..⟩

theorem tick_alone (hw : s.worker p = some w) :
    (system.startingAt s).ReachableBy (Alone p sig) (s.tick p w) := by
  have hstep : s.step (.tick p) = some (s.tick p w) := by
    rw [System.step, hw]
    rfl
  exact .step (.init rfl) (.inl rfl) hstep

/-- From `s` worker `p` comes by its own steps to where its handlers are `frames`, and it has
sent SIGTERM to the slots of `pids` from `n` on. -/
structure Signalled (s : System) (p : Nat) (sig : Signal) (pids : Fin maxProcess → Nat)
    (frames : List Frame) (n : Nat) (t : System) : Prop where
  run : (system.startingAt s).ReachableBy (Alone p sig) t
  master : t.master = s.master
  returned : ∃ v, t.worker p = some v ∧ v.frames = frames
  sent : ∀ i : Fin maxProcess, n ≤ i → 0 < pids i → (p, pids i) ∈ t.sent
  older : ∀ e ∈ s.sent, e ∈ t.sent

section Loop
variable {pids : Fin maxProcess → Nat} {frames below : List Frame} {n : Nat} {sig' : Signal}

theorem Signalled.after_tick (hw : s.worker p = some w)
    (h : Signalled (s.tick p w) p sig pids frames n t) : Signalled s p sig pids frames n t where
  run := (tick_alone hw).append h.run
  master := h.master
  returned := h.returned
  sent := h.sent
  older e he := h.older e (List.mem_append_right _ he)

theorem Signalled.with_slot (h : Signalled s p sig pids frames (n + 1) t) (hn : n < maxProcess)
    (hslot : 0 < pids ⟨n, hn⟩ → (p, pids ⟨n, hn⟩) ∈ s.sent) :
    Signalled s p sig pids frames n t where
  run := h.run
  master := h.master
  returned := h.returned
  sent i hi hpid := by
    rcases hi.lt_or_eq with hlt | rfl
    · exact h.sent i hlt hpid
    · exact h.older _ (hslot hpid)
  older := h.older

theorem exists_signalled (sig : Signal) {k : Nat} (hn : n + k = maxProcess) (hw : s.worker p = some w)
    (top : w.frames = .shut sig' (.test n) :: below) : ∃ t, Signalled s p sig w.pids below n t := by
  induction k generalizing s w n with
  | zero =>
    have hlast : ¬ n < maxProcess := by omega
    have htick : w.tick = ({ w with frames := below }, none) := by
      simp [WorkerProcess.tick, top, ShutPc.next, hlast]
    refine ⟨s.tick p w, tick_alone hw, rfl, ⟨_, worker_tick hw htick, rfl⟩, ?_, ?_⟩
    · intro i hi
      omega
    · exact fun e he => List.mem_append_right _ he
  | succ k ih =>
    have hlt : n < maxProcess := by omega
    by_cases hslot : 0 < w.pids ⟨n, hlt⟩
    · have htest : w.tick = ({ w with frames := .shut sig' (.load ⟨n, hlt⟩) :: below }, none) := by
        simp [WorkerProcess.tick, top, ShutPc.next, hlt, hslot]
      have hload := worker_tick hw htest
      have hsend := worker_tick hload rfl
      have hnext := worker_tick hsend rfl
      obtain ⟨t, ht⟩ := ih (n := n + 1) (by omega) hnext rfl
      refine ⟨t, .after_tick hw (.after_tick hload (.after_tick hsend (ht.with_slot hlt fun _ => ?_)))⟩
      exact List.mem_cons_self
    · have htest : w.tick = ({ w with frames := .shut sig' (.test (n + 1)) :: below }, none) := by
        simp [WorkerProcess.tick, top, ShutPc.next, hlt, hslot]
      have hnext := worker_tick hw htest
      obtain ⟨t, ht⟩ := ih (n := n + 1) (by omega) hnext rfl
      exact ⟨t, .after_tick hw (ht.with_slot hlt fun hpid => absurd hpid hslot)⟩

end Loop

/-- A restarted worker that is not in a handler survives a signal it does not block, and sends
SIGTERM to every worker of its table. -/
theorem restarted_worker_signals (h : system.Reachable s) (hw : s.worker p = some w)
    (hforker : w.forker = .restartWorker) (idle : w.frames = []) (hsig : sig.isStop)
    (unmasked : sig ∉ w.masked) :
    ∃ t, (system.startingAt s).ReachableBy (Alone p sig) t ∧ t.master = s.master ∧
      (∃ v, t.worker p = some v ∧ v.frames = []) ∧
      ∀ i, 0 < w.pids i → (p, w.pids i) ∈ t.sent := by
  obtain ⟨hrunning, hworker⟩ := worker_eq_some.mp hw
  have hhandled : w.handled sig = true := by
    cases (allDisposed_invariant _).holds h p w hworker with
    | spawned forker => cases hforker.symm.trans forker
    | restarted _ inherited => simp [inherited, setupSignals, hsig]
  have hblocks : ¬ w.Blocks sig := by simp [WorkerProcess.Blocks, unmasked, idle]
  have hne : sig ≠ .chld := by
    rintro rfl
    cases hsig
  have hstep : s.step (.signal p sig) = some (s.setWorker p (w.interrupted sig)) := by
    rw [System.step, hw, Option.bind_some, System.signal, if_neg hblocks, if_pos hhandled]
  have hactive : (s.setWorker p (w.interrupted sig)).worker p = some (w.interrupted sig) :=
    worker_eq_some.mpr ⟨hrunning, Function.update_self ..⟩
  have hflag : (w.interrupted sig).tick =
      ({ w with running := false, frames := [.shut sig (.test 0)] }, none) := by
    simp [WorkerProcess.interrupted, WorkerProcess.tick, hne, idle]
  obtain ⟨t, ht⟩ := exists_signalled sig (Nat.zero_add _) (worker_tick hactive hflag) rfl
  have hall := Signalled.after_tick hactive ht
  have hfirst : (system.startingAt s).ReachableBy (Alone p sig)
      (s.setWorker p (w.interrupted sig)) := .step (.init rfl) (.inr rfl) hstep
  exact ⟨t, hfirst.append hall.run, hall.master, hall.returned, fun i => hall.sent i (Nat.zero_le _)⟩

end Runs

end MinhServer.Master
