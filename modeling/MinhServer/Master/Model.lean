import Mathlib.Data.Finset.Basic
import Mathlib.Data.Fintype.EquivFin
import MinhServer.Library.Machine
import MinhServer.Library.Slots

/-!
# The master process

`runMutilProcessServer` and the handlers it installs, one instruction that reads or
writes shared data at a time. A handler runs on top of what it interrupted; its own
signal is blocked meanwhile and no other is.
-/

namespace MinhServer.Master

/-- `MAX_PROCESS` -/
abbrev maxProcess : Nat := 4

inductive Signal where
  | chld
  | int
  | term
  | kill
  | other (number : Nat)
  deriving DecidableEq, Repr

/-- The signals that ask for a shutdown. -/
def Signal.isStop : Signal → Bool
  | .int | .term => true
  | .chld | .kill | .other _ => false

/-- What `waitpid` says about a worker; without `WUNTRACED` it has ended. -/
inductive Status where
  | exited (code : Nat)
  | signaled (sig : Signal)
  deriving DecidableEq, Repr

/-- A worker as `fork` left it: its slot, its copy of `worker_pids`, and whether it went back
to the default actions of the signals. -/
structure Image where
  slot : Fin maxProcess
  pids : Fin maxProcess → Nat
  defaults : Bool

inductive Proc where
  | running (image : Image)
  | zombie (status : Status)

def Proc.isRunning : Proc → Bool
  | .running _ => true
  | .zombie _ => false

/-- The children of the master that it has not reaped. -/
structure Children where
  proc : Nat → Option Proc
  pids : Finset Nat
  mem_pids : ∀ p, p ∈ pids ↔ (proc p).isSome
  zero_notMem : 0 ∉ pids

namespace Children

def empty : Children := ⟨fun _ => none, ∅, by simp, by simp⟩

def isRunning (c : Children) (p : Nat) : Bool := (c.proc p).any Proc.isRunning

def alive (c : Children) : Finset Nat := c.pids.filter fun p => c.isRunning p

/-- A child that has ended waits for `waitpid`. -/
def hasZombie (c : Children) : Prop := ∃ p ∈ c.pids, c.isRunning p = false

instance (c : Children) : Decidable c.hasZombie :=
  inferInstanceAs (Decidable (∃ p ∈ c.pids, c.isRunning p = false))

/-- `fork` returns a pid that no child has; the pid of a reaped child may come again. -/
def fork (c : Children) (p : Nat) (image : Image) : Option Children :=
  if h : p ≠ 0 ∧ p ∉ c.pids then
    some {
      proc := Function.update c.proc p (some (.running image))
      pids := insert p c.pids
      mem_pids := by
        intro q
        by_cases hq : q = p
        · subst hq
          simp
        · simp [hq, c.mem_pids]
      zero_notMem := by simp [c.zero_notMem, h.1.symm] }
  else none

def die (c : Children) (p : Nat) (status : Status) : Option Children :=
  if h : c.isRunning p then
    some { c with
      proc := Function.update c.proc p (some (.zombie status))
      mem_pids := by
        intro q
        by_cases hq : q = p
        · subst hq
          have hsome : (c.proc q).isSome := by
            cases hproc : c.proc q with
            | none => simp [isRunning, hproc] at h
            | some proc => rfl
          simp [c.mem_pids, hsome]
        · simp [hq, c.mem_pids] }
  else none

/-- What `waitpid` returns `p` with. -/
def statusOf (c : Children) (p : Nat) : Option Status :=
  match c.proc p with
  | some (.zombie status) => some status
  | _ => none

def remove (c : Children) (p : Nat) : Children where
  proc := Function.update c.proc p none
  pids := c.pids.erase p
  mem_pids := by
    intro q
    by_cases hq : q = p
    · subst hq
      simp
    · simp [hq, c.mem_pids]
  zero_notMem := fun h => c.zero_notMem (Finset.mem_of_mem_erase h)

section Lemmas
variable {c d : Children} {p q : Nat} {image : Image} {status : Status}

theorem mem_of_isRunning (h : c.isRunning p) : p ∈ c.pids := by
  rw [c.mem_pids]
  cases hproc : c.proc p with
  | none => simp [isRunning, hproc] at h
  | some proc => rfl

theorem mem_alive : p ∈ c.alive ↔ c.isRunning p := by
  rw [alive, Finset.mem_filter]
  exact ⟨fun h => h.2, fun h => ⟨mem_of_isRunning h, h⟩⟩

theorem ne_zero_of_mem (h : p ∈ c.pids) : p ≠ 0 := fun hp => c.zero_notMem (hp ▸ h)

theorem fork_spec (h : c.fork p image = some d) :
    p ≠ 0 ∧ p ∉ c.pids ∧ d.pids = insert p c.pids ∧
      ∀ q, d.isRunning q → q = p ∨ c.isRunning q := by
  unfold fork at h
  split at h
  · next hp =>
    cases h
    refine ⟨hp.1, hp.2, rfl, fun q hq => ?_⟩
    by_cases hqp : q = p
    · exact .inl hqp
    · simp only [isRunning, Function.update_of_ne hqp] at hq
      exact .inr hq
  · cases h

theorem mem_fork (h : c.fork p image = some d) (hq : q ∈ c.pids) : q ∈ d.pids := by
  obtain ⟨-, -, hpids, -⟩ := fork_spec h
  rw [hpids]
  exact Finset.mem_insert_of_mem hq

theorem die_spec (h : c.die p status = some d) :
    d.pids = c.pids ∧ ∀ q, d.isRunning q → c.isRunning q := by
  unfold die at h
  split at h
  · cases h
    refine ⟨rfl, fun q hq => ?_⟩
    by_cases hqp : q = p
    · subst hqp
      simp only [isRunning, Function.update_self] at hq
      cases hq
    · simp only [isRunning, Function.update_of_ne hqp] at hq
      exact hq
  · cases h

theorem mem_of_statusOf (h : c.statusOf p = some status) : p ∈ c.pids := by
  unfold statusOf at h
  rw [c.mem_pids]
  split at h
  · next hproc => rw [hproc]; rfl
  · cases h

theorem isRunning_remove (h : (c.remove p).isRunning q) : q ≠ p ∧ c.isRunning q := by
  by_cases hqp : q = p
  · subst hqp
    simp [isRunning, remove] at h
  · simp only [isRunning, remove, Function.update_of_ne hqp] at h
    exact ⟨hqp, h⟩

end Lemmas
end Children

/-- Positions of `runMutilProcessServer`. -/
inductive MainPc where
  /-- before the `fork` of worker `i` -/
  | spawn (i : Nat)
  /-- `fork` returned `pid` -/
  | spawnStore (i : Fin maxProcess) (pid : Nat)
  /-- before the test of `server_running` -/
  | serve
  /-- before the test of `timeout` -/
  | waitTest (timeout : Int)
  | waitScan (timeout : Int) (i : Nat)
  /-- before `timeout <= 0` -/
  | killCheck (timeout : Int)
  | killTest (i : Nat)
  /-- slot `i` was found in use, its pid is read again -/
  | killLoad (i : Fin maxProcess)
  | killSend (i : Fin maxProcess) (pid : Nat)
  /-- in the last `waitpid`, and whether a handler has interrupted it -/
  | reap (interrupted : Bool)
  | done
  deriving DecidableEq, Repr

/-- Positions of `sigchldHandler` and of `restartWorker`, which it calls; `pid` is the reaped
worker. -/
inductive ChldPc where
  | wait
  | scan (pid : Nat) (status : Status) (i : Nat)
  | found (pid : Nat) (status : Status) (i : Fin maxProcess)
  | clear (pid : Nat) (i : Fin maxProcess)
  | restartPid (pid : Nat) (i : Fin maxProcess)
  | restartFlag (pid : Nat) (i : Fin maxProcess)
  | restartSleep (pid : Nat) (i : Fin maxProcess)
  | restartFork (pid : Nat) (i : Fin maxProcess)
  | restartStore (pid : Nat) (i : Fin maxProcess) (new : Nat)
  deriving DecidableEq, Repr

/-- Positions of `shutdownHandler`. -/
inductive ShutPc where
  | flag
  | test (i : Nat)
  | load (i : Fin maxProcess)
  | send (i : Fin maxProcess) (pid : Nat)
  deriving DecidableEq, Repr

inductive Frame where
  | chld (pc : ChldPc)
  | shut (sig : Signal) (pc : ShutPc)
  deriving DecidableEq, Repr

def Frame.signal : Frame → Signal
  | .chld _ => .chld
  | .shut sig _ => sig

/-- The next position after an instruction that only reads. -/
def MainPc.next (pids : Fin maxProcess → Nat) (running : Bool) : MainPc → Option MainPc
  | .spawn i => if i < maxProcess then none else some .serve
  | .serve => some (if running then .serve else .waitTest 30)
  | .waitTest timeout =>
    some (if 0 < timeout then .waitScan (timeout - 1) 0 else .killCheck (timeout - 1))
  | .waitScan timeout i =>
    if h : i < maxProcess then
      some (if 0 < pids ⟨i, h⟩ then .waitTest timeout else .waitScan timeout (i + 1))
    else some (.killCheck timeout)
  | .killCheck timeout => some (if timeout ≤ 0 then .killTest 0 else .reap false)
  | .killTest i =>
    if h : i < maxProcess then
      some (if 0 < pids ⟨i, h⟩ then .killLoad ⟨i, h⟩ else .killTest (i + 1))
    else some (.reap false)
  | .killLoad i => some (.killSend i (pids i))
  | .spawnStore _ _ | .killSend _ _ | .reap _ | .done => none

/-- A handler without `SA_RESTART` interrupts `waitpid`. -/
def MainPc.interrupt : MainPc → MainPc
  | .reap _ => .reap true
  | pc => pc

/-- A worker that ended this way is restarted while the server runs. -/
def Status.restarts : Status → Bool
  | .exited code => code ≠ 0
  | .signaled sig => sig ≠ .term ∧ sig ≠ .int

def ChldPc.next (pids : Fin maxProcess → Nat) (running : Bool) : ChldPc → Option ChldPc
  | .scan pid status i =>
    if h : i < maxProcess then
      some (if pids ⟨i, h⟩ = pid then .found pid status ⟨i, h⟩ else .scan pid status (i + 1))
    else some .wait
  | .found pid status i =>
    some (if status.restarts ∧ running then .restartPid pid i else .clear pid i)
  | .restartPid pid i => some (if 0 < pids i then .restartFlag pid i else .wait)
  | .restartFlag pid i => some (if running then .restartSleep pid i else .wait)
  | .restartSleep pid i => some (.restartFork pid i)
  | .wait | .clear _ _ | .restartFork _ _ | .restartStore _ _ _ => none

def ShutPc.next (pids : Fin maxProcess → Nat) : ShutPc → Option ShutPc
  | .test i =>
    if h : i < maxProcess then
      some (if 0 < pids ⟨i, h⟩ then .load ⟨i, h⟩ else .test (i + 1))
    else none
  | .load i => some (.send i (pids i))
  | .flag | .send _ _ => none

/-- What the master did, for its shutdown to be judged by. -/
inductive Event where
  | forked (pid : Nat)
  /-- `server_running = 0`, while the workers in `alive` had not ended -/
  | cleared (sig : Signal) (alive : Finset Nat)
  /-- `kill`; was `pid` a child that is not reaped -/
  | killed (pid : Nat) (sig : Signal) (unreaped : Bool)
  deriving DecidableEq

/-- `frames` are the active handlers, the running one first; `log` is latest first. -/
structure State where
  main : MainPc
  frames : List Frame
  pids : Fin maxProcess → Nat
  running : Bool
  children : Children
  log : List Event

/-- After `setupSignalHandlers`. -/
def State.start : State where
  main := .spawn 0
  frames := []
  pids := fun _ => 0
  running := true
  children := .empty
  log := []

inductive Act where
  /-- the next instruction, if it is not one of the calls below -/
  | tick
  | fork (pid : Nat)
  | forkFail
  | reap (pid : Nat)
  /-- `waitpid` returns no child -/
  | reapNone
  | deliver (sig : Signal)
  | die (pid : Nat) (status : Status)
  deriving DecidableEq, Repr

namespace State

def setPid (s : State) (i : Fin maxProcess) (p : Nat) : State :=
  { s with pids := Function.update s.pids i p }

def kill (s : State) (p : Nat) (sig : Signal) : State :=
  { s with log := .killed p sig (p ∈ s.children.pids) :: s.log }

def fork (s : State) (p : Nat) (image : Image) : Option State :=
  (s.children.fork p image).map fun c => { s with children := c, log := .forked p :: s.log }

def goto (s : State) (pc : MainPc) : State := { s with main := pc }

/-- The running handler goes on. -/
def handler (s : State) (f : Frame) (below : List Frame) : State := { s with frames := f :: below }

def handlerReturns (s : State) (below : List Frame) : State := { s with frames := below }

def mainStep (s : State) (act : Act) : Option State :=
  match act, s.main with
  | .fork p, .spawn i =>
    if h : i < maxProcess then
      (s.fork p ⟨⟨i, h⟩, s.pids, true⟩).map fun s => s.goto (.spawnStore ⟨i, h⟩ p)
    else none
  | .forkFail, .spawn i => if i < maxProcess then some (s.goto (.spawn (i + 1))) else none
  | .tick, .spawnStore i p => some ((s.setPid i p).goto (.spawn (i + 1)))
  | .tick, .killSend i p => some ((s.kill p .kill).goto (.killTest (i + 1)))
  | .tick, pc => (pc.next s.pids s.running).map s.goto
  | .reap p, .reap _ =>
    (s.children.statusOf p).map fun _ =>
      { s with children := s.children.remove p, main := .reap false }
  -- no child is left, or `EINTR`
  | .reapNone, .reap interrupted =>
    if s.children.pids = ∅ ∨ interrupted then some (s.goto .done) else none
  | _, _ => none

def chldStep (s : State) (pc : ChldPc) (below : List Frame) (act : Act) : Option State :=
  match act, pc with
  | .reap p, .wait =>
    (s.children.statusOf p).map fun status =>
      { s with
        children := s.children.remove p
        frames := .chld (.scan p status 0) :: below }
  | .reapNone, .wait => if s.children.hasZombie then none else some (s.handlerReturns below)
  | .tick, .clear _ i => some ((s.setPid i 0).handler (.chld .wait) below)
  -- the child inherits the handlers
  | .fork p, .restartFork pid i =>
    (s.fork p ⟨i, s.pids, false⟩).map fun s => s.handler (.chld (.restartStore pid i p)) below
  | .forkFail, .restartFork _ _ => some (s.handler (.chld .wait) below)
  | .tick, .restartStore _ i p => some ((s.setPid i p).handler (.chld .wait) below)
  | .tick, pc => (pc.next s.pids s.running).map fun pc => s.handler (.chld pc) below
  | _, _ => none

def shutStep (s : State) (sig : Signal) (pc : ShutPc) (below : List Frame) (act : Act) :
    Option State :=
  match act, pc with
  | .tick, .flag =>
    some { s with
      running := false
      log := .cleared sig s.children.alive :: s.log
      frames := .shut sig (.test 0) :: below }
  | .tick, .send i p => some ((s.kill p .term).handler (.shut sig (.test (i + 1))) below)
  | .tick, pc =>
    match pc.next s.pids with
    | some pc => some (s.handler (.shut sig pc) below)
    | none => some (s.handlerReturns below)
  | _, _ => none

/-- A signal that is not blocked starts its handler. -/
def deliver (s : State) (sig : Signal) : Option State :=
  if ∃ f ∈ s.frames, f.signal = sig then none
  else if sig = .chld then some { s with frames := .chld .wait :: s.frames }
  else if sig.isStop then
    some { s with frames := .shut sig .flag :: s.frames, main := s.main.interrupt }
  else none

def step (s : State) (act : Act) : Option State :=
  match act with
  | .die p status => (s.children.die p status).map fun c => { s with children := c }
  | .deliver sig => s.deliver sig
  | act =>
    match s.frames with
    | [] => s.mainStep act
    | .chld pc :: below => s.chldStep pc below act
    | .shut sig pc :: below => s.shutStep sig pc below act

end State

/-- Any interleaving of the master, its handlers and the workers. -/
def machine : Machine State Act where
  init s := s = .start
  step := State.step

end MinhServer.Master
