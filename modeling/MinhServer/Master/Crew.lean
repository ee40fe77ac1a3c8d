import MinhServer.Master.Progress

namespace MinhServer.Master

/-- A child that runs, or that ended so that it is to be replaced. -/
def Proc.kept : Proc → Bool
  | .running _ => true
  | .zombie status => status.restarts

def Children.kept (c : Children) : Finset Nat := c.pids.filter fun p => (c.proc p).any Proc.kept

/-- The fork that the handler owes for the worker that it reaped. -/
def ChldPc.owed : ChldPc → Nat
  | .scan _ status _ | .found _ status _ => status.restarts.toNat
  | .restartPid _ _ | .restartFlag _ _ | .restartSleep _ _ | .restartFork _ _ => 1
  | .wait | .clear _ _ | .restartStore _ _ _ => 0

def Frame.owed : Frame → Nat
  | .chld pc => pc.owed
  | .shut _ _ => 0

/-- The workers that run or are still to be forked, a replacement for each that crashed among
them. -/
def State.crew (s : State) : Nat :=
  s.children.kept.card + (s.frames.map Frame.owed).sum + (maxProcess - s.main.spawned)

/-- Workers for which there will be no other one: those that ended without a crash, and those that
the spawn loop could not fork. -/
def Act.losses : Act → Nat
  | .die _ status => (!status.restarts).toNat
  | .forkFail => 1
  | _ => 0

/-- The steps after which every crash is answered. -/
def Supervised (s : State) : Act → Prop
  -- no shutdown is asked for
  | .deliver sig => sig = .chld
  -- only the forks of the spawn loop fail
  | .forkFail => s.frames = []
  -- no handler reaps a worker that is not stored yet
  | .reap p => s.frames ≠ [] → s.main.inFlight ≠ some p
  | _ => True

instance (s : State) : (act : Act) → Decidable (Supervised s act)
  | .deliver sig => inferInstanceAs (Decidable (sig = .chld))
  | .forkFail => inferInstanceAs (Decidable (s.frames = []))
  | .reap p => inferInstanceAs (Decidable (s.frames ≠ [] → s.main.inFlight ≠ some p))
  | .tick | .fork _ | .reapNone | .die _ _ => inferInstanceAs (Decidable True)

namespace Children
variable {c d : Children} {p q : Nat} {image : Image} {status : Status}

theorem mem_kept : p ∈ c.kept ↔ (c.proc p).any Proc.kept = true := by
  rw [kept, Finset.mem_filter, and_iff_right_iff_imp, mem_pids]
  cases c.proc p with
  | none => exact id
  | some proc => exact fun _ => rfl

theorem proc_of_isRunning (h : c.isRunning p) : ∃ image, c.proc p = some (.running image) := by
  unfold isRunning at h
  cases hproc : c.proc p with
  | none =>
    rw [hproc] at h
    cases h
  | some proc =>
    cases proc with
    | running image => exact ⟨image, rfl⟩
    | zombie status =>
      rw [hproc] at h
      cases h

theorem proc_of_statusOf (h : c.statusOf p = some status) :
    c.proc p = some (.zombie status) := by
  unfold statusOf at h
  split at h
  · next hproc =>
    cases h
    exact hproc
  · cases h

theorem proc_fork (h : c.fork p image = some d) :
    d.proc = Function.update c.proc p (some (.running image)) := by
  unfold fork at h
  split at h
  · cases h
    rfl
  · cases h

theorem proc_die (h : c.die p status = some d) :
    c.isRunning p ∧ d.proc = Function.update c.proc p (some (.zombie status)) := by
  unfold die at h
  split at h
  · next hrunning =>
    cases h
    exact ⟨hrunning, rfl⟩
  · cases h

theorem card_kept_fork (h : c.fork p image = some d) : d.kept.card = c.kept.card + 1 := by
  have hproc := proc_fork h
  obtain ⟨-, hnew, -, -⟩ := fork_spec h
  have hkept : d.kept = insert p c.kept := by
    ext q
    rw [Finset.mem_insert, mem_kept, mem_kept, hproc]
    by_cases hq : q = p
    · subst hq
      simp [Proc.kept]
    · rw [Function.update_of_ne hq]
      simp [hq]
  have hout : p ∉ c.kept := fun hp => hnew (Finset.mem_of_mem_filter p hp)
  rw [hkept, Finset.card_insert_of_notMem hout]

theorem card_kept_die (h : c.die p status = some d) :
    d.kept.card + (!status.restarts).toNat = c.kept.card := by
  obtain ⟨hrunning, hproc⟩ := proc_die h
  obtain ⟨image, hp⟩ := proc_of_isRunning hrunning
  have hmem : p ∈ c.kept := mem_kept.mpr (by rw [hp]; rfl)
  cases hrestarts : status.restarts with
  | true =>
    have hkept : d.kept = c.kept := by
      ext q
      rw [mem_kept, mem_kept, hproc]
      by_cases hq : q = p
      · subst hq
        simp [hp, Proc.kept, hrestarts]
      · rw [Function.update_of_ne hq]
    rw [hkept]
    rfl
  | false =>
    have hkept : d.kept = c.kept.erase p := by
      ext q
      rw [Finset.mem_erase, mem_kept, mem_kept, hproc]
      by_cases hq : q = p
      · subst hq
        simp [Proc.kept, hrestarts]
      · rw [Function.update_of_ne hq]
        simp [hq]
    rw [hkept]
    exact Finset.card_erase_add_one hmem

theorem card_kept_remove (h : c.statusOf p = some status) :
    (c.remove p).kept.card + status.restarts.toNat = c.kept.card := by
  have hp := proc_of_statusOf h
  have hkept : (c.remove p).kept = c.kept.erase p := by
    ext q
    rw [Finset.mem_erase, mem_kept, mem_kept, remove]
    by_cases hq : q = p
    · subst hq
      simp
    · simp [hq]
  rw [hkept]
  cases hrestarts : status.restarts with
  | true => exact Finset.card_erase_add_one (mem_kept.mpr (by rw [hp]; exact hrestarts))
  | false =>
    rw [Finset.erase_eq_of_notMem fun hmem => ?_]
    · rfl
    · rw [mem_kept, hp] at hmem
      exact Bool.false_ne_true (hrestarts.symm.trans hmem)

theorem kept_eq_alive (h : ¬ c.hasZombie) : c.kept = c.alive := by
  ext p
  rw [mem_alive]
  constructor
  · intro hp
    by_contra hended
    exact h ⟨p, Finset.mem_of_mem_filter p hp, Bool.eq_false_iff.mpr hended⟩
  · intro hrunning
    obtain ⟨image, hp⟩ := proc_of_isRunning hrunning
    exact mem_kept.mpr (by rw [hp]; rfl)

end Children

/-- Every child is in the table or on its way there, and the handler finds the one it reaped. -/
structure Staffed (s : State) : Prop where
  tabled : Tabled s
  running : s.running = true
  noShutdown : ∀ sig pc, .shut sig pc ∉ s.frames
  cover : ∀ p ∈ s.children.pids, (∃ i, s.pids i = p) ∨ s.InFlight p
  found : ∀ p status (n : Nat), .chld (.scan p status n) ∈ s.frames →
    ∃ i : Fin maxProcess, n ≤ i ∧ s.pids i = p

section Facts
variable {s t : State} {act : Act}

theorem Staffed.not_stopping (h : Staffed s) : s.main.stopping = false := by
  cases hstop : s.main.stopping with
  | false => rfl
  | true =>
    have hstopped := h.tabled.stopping hstop
    rw [h.running] at hstopped
    cases hstopped

theorem Staffed.serving (h : Staffed s) {P : Prop} (hmain : s.main.stopping = true) : P := by
  rw [h.not_stopping] at hmain
  cases hmain

theorem Staffed.no_shut (h : Staffed s) {P : Prop} {sig : Signal} {pc : ShutPc}
    {below : List Frame} (top : s.frames = .shut sig pc :: below) : P :=
  absurd (mem_of_top top) (h.noShutdown sig pc)

theorem Supervised.no_stop {P : Prop} {sig : Signal} (h : Supervised s (.deliver sig))
    (stop : sig.isStop = true) : P := by
  have hsig : sig = .chld := h
  rw [hsig] at stop
  cases stop

end Facts

section Steps
variable {s t : State} {act : Act}

/-- What the handler reaped is in a slot that its scan comes to. -/
theorem found_step (h : Staffed s) (hsup : Supervised s act) (hs : Step s act t) :
    ∀ p status (n : Nat), .chld (.scan p status n) ∈ t.frames →
      ∃ i : Fin maxProcess, n ≤ i ∧ t.pids i = p := by
  intro p status n hmem
  have hfound := h.found p status n
  cases hs with
  | chldArrives => exact hfound ((List.mem_cons.mp hmem).resolve_left nofun)
  | stopArrives stop => exact hsup.no_stop stop
  | mainStore idle | mainFork idle => exact absurd hmem (notMem_of_idle idle _)
  | mainKill idle main | mainReap idle main | mainDone idle main =>
    exact h.serving (by rw [main]; rfl)
  | @chldMove pc pc' below top next =>
    have heq := h.tabled.chld_replaced top hmem
    subst heq
    cases pc <;> simp only [ChldPc.next] at next <;> try contradiction
    case scan q status' m =>
      obtain ⟨j, hj, hjq⟩ := h.found q status' m (mem_of_top top)
      split at next
      · next hm =>
        split at next
        · cases next
        · next hother =>
          cases next
          refine ⟨j, Nat.lt_of_le_of_ne hj ?_, hjq⟩
          rintro rfl
          exact hother hjq
      · cases next
    all_goals (repeat' split at next) <;> cases next
  | @chldReap q status' below top ended =>
    have heq := h.tabled.chld_replaced top hmem
    cases heq
    have hreaped := Children.mem_of_statusOf ended
    have hfree : s.main.inFlight ≠ some p := hsup (by rw [top]; exact List.cons_ne_nil _ _)
    rcases h.cover p hreaped with ⟨i, hi⟩ | hmain | ⟨f, hf, hfp⟩
    · exact ⟨i, Nat.zero_le _, hi⟩
    · exact absurd hmain hfree
    · obtain ⟨pid, i, rfl⟩ := Frame.eq_of_inFlight hfp
      cases h.tabled.chld_unique hf (mem_of_top top)
  | chldClear top | chldForkFail top | chldStore top | chldFork top =>
    cases h.tabled.chld_replaced top hmem
  | chldReturn top => exact hfound (mem_of_below top hmem)
  | shutFlag top | shutMove top | shutSend top | shutReturn top => exact h.no_shut top
  | _ => exact hfound hmem

theorem noShutdown_step (h : Staffed s) (hsup : Supervised s act) (hs : Step s act t) :
    ∀ sig pc, .shut sig pc ∉ t.frames := by
  intro sig pc hmem
  have hnone := h.noShutdown sig pc
  cases hs with
  | stopArrives stop => exact hsup.no_stop stop
  | chldArrives => exact hnone ((List.mem_cons.mp hmem).resolve_left nofun)
  | chldMove top | chldReap top | chldClear top | chldFork top | chldForkFail top | chldStore top =>
    exact hnone (shut_mem_of_chld top hmem)
  | chldReturn top => exact hnone (mem_of_below top hmem)
  | shutFlag top | shutMove top | shutSend top | shutReturn top => exact h.no_shut top
  | _ => exact hnone hmem

theorem Staffed.step (h : Staffed s) (hsup : Supervised s act) (hs : Step s act t) : Staffed t where
  tabled := h.tabled.step hs
  running := by
    have hrunning := h.running
    cases hs with
    | shutFlag top => exact h.no_shut top
    | _ => exact hrunning
  noShutdown := noShutdown_step h hsup hs
  cover := fun p hp => placed_step h.tabled hs hp (h.cover p)
  found := found_step h hsup hs

end Steps

theorem staffed_start : Staffed .start where
  tabled := tabled_start
  running := rfl
  noShutdown := nofun
  cover := by
    intro p hp
    cases hp
  found := nofun

section Crew
variable {s t : State} {act : Act}

/-- While the server runs the handler does not forget what it owes. -/
theorem owed_next (h : Staffed s) {pc pc' : ChldPc} {below : List Frame}
    (top : s.frames = .chld pc :: below) (next : pc.next s.pids s.running = some pc') :
    pc'.owed = pc.owed := by
  have hknows := h.tabled.chld_top top
  rw [h.running] at next
  cases pc <;> simp only [ChldPc.next] at next <;> try contradiction
  case scan p status n =>
    obtain ⟨i, hi, -⟩ := h.found p status n (mem_of_top top)
    rw [dif_pos (lt_of_le_of_lt hi i.isLt)] at next
    split at next
    · cases next
      rfl
    · cases next
      rfl
  case found p status i =>
    cases hrestarts : status.restarts with
    | true =>
      rw [if_pos ⟨hrestarts, trivial⟩] at next
      cases next
      rw [ChldPc.owed, ChldPc.owed, hrestarts]
      rfl
    | false =>
      rw [if_neg fun hboth => Bool.false_ne_true (hrestarts.symm.trans hboth.1)] at next
      cases next
      rw [ChldPc.owed, ChldPc.owed, hrestarts]
      rfl
  case restartPid p i =>
    have hslot : s.pids i = p := hknows.slot p i rfl rfl
    rw [if_pos (hslot ▸ Nat.pos_of_ne_zero (hknows.ne_zero p rfl))] at next
    cases next
    rfl
  case restartFlag p i =>
    rw [if_pos trivial] at next
    cases next
    rfl
  case restartSleep p i =>
    cases next
    rfl

/-- Only losses make the crew smaller, and nothing makes it larger. -/
theorem crew_step (h : Staffed s) (hsup : Supervised s act) (hs : Step s act t) :
    t.crew + act.losses = s.crew := by
  cases hs with
  | die died =>
    have hkept := Children.card_kept_die died
    simp only [State.crew, Act.losses]
    omega
  | chldArrives =>
    simp only [State.crew, List.map_cons, List.sum_cons, Frame.owed, ChldPc.owed, Act.losses]
    omega
  | stopArrives stop => exact hsup.no_stop stop
  | mainMove idle next =>
    obtain ⟨hbefore, hafter⟩ := MainPc.spawned_next next
    simp only [State.crew, State.goto, hbefore, hafter, Act.losses]
    omega
  | @mainFork i p c idle main forked =>
    have hi : (i : Nat) < 4 := i.isLt
    simp only [State.crew, main, MainPc.spawned, Children.card_kept_fork forked, Act.losses,
      maxProcess]
    omega
  | @mainForkFail i idle main | @mainStore i p idle main =>
    have hi : (i : Nat) < 4 := i.isLt
    simp only [State.crew, State.goto, State.setPid, main, MainPc.spawned, Act.losses, maxProcess]
    omega
  | mainKill idle main | mainReap idle main | mainDone idle main =>
    exact h.serving (by rw [main]; rfl)
  | chldMove top next =>
    have howed := owed_next h top next
    simp only [State.crew, State.handler, top, List.map_cons, List.sum_cons, Frame.owed,
      Act.losses]
    omega
  | chldReap top ended =>
    have hkept := Children.card_kept_remove ended
    simp only [State.crew, top, List.map_cons, List.sum_cons, Frame.owed, ChldPc.owed, Act.losses]
    omega
  | chldFork top forked =>
    simp only [State.crew, top, List.map_cons, List.sum_cons, Frame.owed, ChldPc.owed,
      Children.card_kept_fork forked, Act.losses]
    omega
  | chldForkFail top =>
    have hidle : s.frames = [] := hsup
    rw [top] at hidle
    cases hidle
  | chldReturn top | chldClear top | chldStore top =>
    simp only [State.crew, State.handler, State.handlerReturns, State.setPid, top, List.map_cons,
      List.sum_cons, Frame.owed, ChldPc.owed, Act.losses]
    omega
  | shutFlag top | shutMove top | shutSend top | shutReturn top => exact h.no_shut top

end Crew

/-- While no shutdown is asked for, each worker that crashed is replaced by exactly one: whatever
the order of deaths, signals and forks, when the spawn loop is over and no child waits for the
handler, `MAX_PROCESS` workers run, less those that ended without a crash or that the spawn loop
could not fork. -/
theorem crashed_workers_replaced {s : State} {acts : List Act}
    (hrun : machine.run Supervised .start acts = some s) :
    s.crew + (acts.map Act.losses).sum = maxProcess ∧
      (s.main = .serve → s.frames = [] → ¬ s.children.hasZombie →
        s.children.alive.card + (acts.map Act.losses).sum = maxProcess) := by
  have hstep : ∀ (s : State) (act : Act) (t : State), Staffed s → Supervised s act →
      machine.step s act = some t → Staffed t ∧ t.crew + act.losses = s.crew + 0 :=
    fun _ _ _ h hsup next =>
      ⟨h.step hsup (step_cases next), crew_step h hsup (step_cases next)⟩
  have hcrew := Machine.run_conserves hstep staffed_start hrun
  have hnone : (acts.map fun _ => 0).sum = 0 := by simp
  have hstart : State.start.crew = maxProcess := rfl
  rw [hnone, hstart, Nat.add_zero] at hcrew
  refine ⟨hcrew, fun hserve hidle hzombie => ?_⟩
  rw [State.crew, hserve, hidle, Children.kept_eq_alive hzombie] at hcrew
  exact hcrew

/-- A worker crashes twice, another one ends for good. -/
theorem crashed_workers_replaced_twice : ∃ s acts,
    machine.run Supervised .start acts = some s ∧ (acts.map Act.losses).sum = 1 ∧
      s.children.isRunning 106 = true ∧ s.children.alive.card + 1 = maxProcess := by
  let restart (p q : Nat) : List Act := [.die p (.exited 1), .deliver .chld, .reap p, .tick,
    .tick, .tick, .tick, .tick, .fork q, .tick, .reapNone]
  let acts : List Act := [.fork 101, .tick, .fork 102, .tick, .fork 103, .tick, .fork 104, .tick,
    .tick] ++ restart 101 105 ++ restart 105 106 ++
    [.die 102 (.exited 0), .deliver .chld, .reap 102, .tick, .tick, .tick, .tick, .reapNone]
  have hresult : (machine.run Supervised .start acts).map (fun s =>
      (s.main, s.frames, decide s.children.hasZombie, s.children.isRunning 106)) =
      some (.serve, [], false, true) := by
    decide +kernel
  obtain ⟨s, hs, hstate⟩ := Option.map_eq_some_iff.mp hresult
  simp only [Prod.mk.injEq, decide_eq_false_iff_not] at hstate
  obtain ⟨hserve, hidle, hzombie, hrunning⟩ := hstate
  have hlosses : (acts.map Act.losses).sum = 1 := by decide +kernel
  have halive := (crashed_workers_replaced hs).2 hserve hidle hzombie
  rw [hlosses] at halive
  exact ⟨s, acts, hs, hlosses, hrunning, halive⟩

end MinhServer.Master
