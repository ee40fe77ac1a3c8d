import MinhServer.Master.Model

namespace MinhServer.Master

/-- The cases of `State.step`, with the state each of them leads to. The main function moves only
while no handler is active, and a handler only while it is the topmost. -/
inductive Step (s : State) : Act → State → Prop where
  | die {p status c} (died : s.children.die p status = some c) :
      Step s (.die p status) { s with children := c }
  | chldArrives (unblocked : ∀ f ∈ s.frames, f.signal ≠ .chld) :
      Step s (.deliver .chld) { s with frames := .chld .wait :: s.frames }
  | stopArrives {sig} (stop : sig.isStop) (unblocked : ∀ f ∈ s.frames, f.signal ≠ sig) :
      Step s (.deliver sig)
        { s with frames := .shut sig .flag :: s.frames, main := s.main.interrupt }
  | mainMove {pc} (idle : s.frames = []) (next : s.main.next s.pids s.running = some pc) :
      Step s .tick (s.goto pc)
  | mainFork {i : Fin maxProcess} {p c} (idle : s.frames = []) (main : s.main = .spawn i)
      (forked : s.children.fork p ⟨i, s.pids, true⟩ = some c) :
      Step s (.fork p)
        { s with children := c, log := .forked p :: s.log, main := .spawnStore i p }
  | mainForkFail {i : Fin maxProcess} (idle : s.frames = []) (main : s.main = .spawn i) :
      Step s .forkFail (s.goto (.spawn (i + 1)))
  | mainStore {i p} (idle : s.frames = []) (main : s.main = .spawnStore i p) :
      Step s .tick ((s.setPid i p).goto (.spawn (i + 1)))
  | mainKill {i p} (idle : s.frames = []) (main : s.main = .killSend i p) :
      Step s .tick ((s.kill p .kill).goto (.killTest (i + 1)))
  | mainReap {p b status} (idle : s.frames = []) (main : s.main = .reap b)
      (ended : s.children.statusOf p = some status) :
      Step s (.reap p) { s with children := s.children.remove p, main := .reap false }
  | mainDone {b} (idle : s.frames = []) (main : s.main = .reap b)
      (finished : s.children.pids = ∅ ∨ b = true) : Step s .reapNone (s.goto .done)
  | chldMove {pc pc' below} (top : s.frames = .chld pc :: below)
      (next : pc.next s.pids s.running = some pc') : Step s .tick (s.handler (.chld pc') below)
  | chldReap {p status below} (top : s.frames = .chld .wait :: below)
      (ended : s.children.statusOf p = some status) :
      Step s (.reap p)
        { s with children := s.children.remove p, frames := .chld (.scan p status 0) :: below }
  | chldReturn {below} (top : s.frames = .chld .wait :: below) (none : ¬ s.children.hasZombie) :
      Step s .reapNone (s.handlerReturns below)
  | chldClear {p i below} (top : s.frames = .chld (.clear p i) :: below) :
      Step s .tick ((s.setPid i 0).handler (.chld .wait) below)
  | chldFork {pid i p c below} (top : s.frames = .chld (.restartFork pid i) :: below)
      (forked : s.children.fork p ⟨i, s.pids, false⟩ = some c) :
      Step s (.fork p)
        { s with
          children := c
          log := .forked p :: s.log
          frames := .chld (.restartStore pid i p) :: below }
  | chldForkFail {pid i below} (top : s.frames = .chld (.restartFork pid i) :: below) :
      Step s .forkFail (s.handler (.chld .wait) below)
  | chldStore {pid i p below} (top : s.frames = .chld (.restartStore pid i p) :: below) :
      Step s .tick ((s.setPid i p).handler (.chld .wait) below)
  | shutFlag {sig below} (top : s.frames = .shut sig .flag :: below) :
      Step s .tick
        { s with
          running := false
          log := .cleared sig s.children.alive :: s.log
          frames := .shut sig (.test 0) :: below }
  | shutMove {sig pc pc' below} (top : s.frames = .shut sig pc :: below)
      (next : pc.next s.pids = some pc') : Step s .tick (s.handler (.shut sig pc') below)
  | shutSend {sig i p below} (top : s.frames = .shut sig (.send i p) :: below) :
      Step s .tick ((s.kill p .term).handler (.shut sig (.test (i + 1))) below)
  | shutReturn {sig i below} (top : s.frames = .shut sig (.test i) :: below)
      (last : maxProcess ≤ i) : Step s .tick (s.handlerReturns below)

variable {s t : State} {act : Act}

theorem mainStep_cases (idle : s.frames = []) (h : s.mainStep act = some t) : Step s act t := by
  unfold State.mainStep at h
  split at h
  · next p i hmain =>
    split at h
    · next hi =>
      obtain ⟨u, hu, rfl⟩ := Option.map_eq_some_iff.mp h
      obtain ⟨c, hc, rfl⟩ := Option.map_eq_some_iff.mp hu
      exact .mainFork (i := ⟨i, hi⟩) idle hmain hc
    · cases h
  · next i hmain =>
    split at h
    · next hi =>
      cases h
      exact .mainForkFail (i := ⟨i, hi⟩) idle hmain
    · cases h
  · next i p hmain =>
    cases h
    exact .mainStore idle hmain
  · next i p hmain =>
    cases h
    exact .mainKill idle hmain
  · obtain ⟨pc, hpc, rfl⟩ := Option.map_eq_some_iff.mp h
    exact .mainMove idle hpc
  · next p b hmain =>
    obtain ⟨status, hstatus, rfl⟩ := Option.map_eq_some_iff.mp h
    exact .mainReap idle hmain hstatus
  · next b hmain =>
    split at h
    · next hfinished =>
      cases h
      exact .mainDone idle hmain hfinished
    · cases h
  · cases h

theorem chldStep_cases {pc : ChldPc} {below : List Frame} (top : s.frames = .chld pc :: below)
    (h : s.chldStep pc below act = some t) : Step s act t := by
  unfold State.chldStep at h
  split at h
  · obtain ⟨status, hstatus, rfl⟩ := Option.map_eq_some_iff.mp h
    exact .chldReap top hstatus
  · split at h
    · cases h
    · next hnone =>
      cases h
      exact .chldReturn top hnone
  · cases h
    exact .chldClear top
  · obtain ⟨u, hu, rfl⟩ := Option.map_eq_some_iff.mp h
    obtain ⟨c, hc, rfl⟩ := Option.map_eq_some_iff.mp hu
    exact .chldFork top hc
  · cases h
    exact .chldForkFail top
  · cases h
    exact .chldStore top
  · obtain ⟨pc', hpc', rfl⟩ := Option.map_eq_some_iff.mp h
    exact .chldMove top hpc'
  · cases h

theorem shutStep_cases {sig : Signal} {pc : ShutPc} {below : List Frame}
    (top : s.frames = .shut sig pc :: below) (h : s.shutStep sig pc below act = some t) :
    Step s act t := by
  unfold State.shutStep at h
  split at h
  · cases h
    exact .shutFlag top
  · cases h
    exact .shutSend top
  · next hflag hsend =>
    split at h
    · next pc' hpc' =>
      cases h
      exact .shutMove top hpc'
    · next hnone =>
      cases h
      cases pc with
      | flag => exact absurd rfl hflag
      | send i p => exact absurd rfl (hsend i p)
      | load i => cases hnone
      | test i =>
        by_cases hlast : i < maxProcess
        · simp [ShutPc.next, hlast] at hnone
        · exact .shutReturn top (not_lt.mp hlast)
  · cases h

theorem deliver_cases {sig : Signal} (h : s.deliver sig = some t) : Step s (.deliver sig) t := by
  unfold State.deliver at h
  split at h
  · cases h
  · next hblocked =>
    have unblocked : ∀ f ∈ s.frames, f.signal ≠ sig := fun f hf heq => hblocked ⟨f, hf, heq⟩
    split at h
    · next hsig =>
      cases h
      subst hsig
      exact .chldArrives unblocked
    · split at h
      · next hstop =>
        cases h
        exact .stopArrives hstop unblocked
      · cases h

/-- Every step of the master is one of them. -/
theorem step_cases (h : s.step act = some t) : Step s act t := by
  unfold State.step at h
  split at h
  · obtain ⟨c, hc, rfl⟩ := Option.map_eq_some_iff.mp h
    exact .die hc
  · exact deliver_cases h
  · split at h
    · next idle => exact mainStep_cases idle h
    · next top => exact chldStep_cases top h
    · next top => exact shutStep_cases top h

end MinhServer.Master
