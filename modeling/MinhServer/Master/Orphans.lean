import MinhServer.Master.Shutdown

namespace MinhServer.Master

/-- The worker that was forked with the pid `p`, and then came `after`, has ended. A pid comes
back only when its worker was reaped. -/
def State.Ended (s : State) (p : Nat) (after : List Event) : Prop :=
  .forked p ∈ after ∨ s.children.isRunning p = false

def NoOrphans (s : State) : Prop :=
  s.main = .done → ∀ after p before, s.log = after ++ .forked p :: before →
    s.Ended p after ∨ ∃ b, .killed p .kill b ∈ after

/-- The scans at the end of the main function have `p` before them. -/
def MainPc.Ahead (pids : Fin maxProcess → Nat) (p : Nat) : MainPc → Prop
  | .waitTest _ => ∃ i, pids i = p
  | .waitScan _ n | .killTest n => ∃ i : Fin maxProcess, n ≤ i ∧ pids i = p
  -- after a scan that found nothing the time is not over
  | .killCheck timeout => timeout ≤ 0 ∧ ∃ i, pids i = p
  | .killLoad n => ∃ i : Fin maxProcess, n ≤ i ∧ pids i = p
  | .killSend n q => q = p ∨ ∃ i : Fin maxProcess, n < i ∧ pids i = p
  | .spawn _ | .spawnStore _ _ | .serve | .reap _ | .done => False

/-- The events since `p` was last forked. -/
def State.since (s : State) (p : Nat) : List Event := s.log.takeWhile fun e => e ≠ .forked p

def State.Killed (s : State) (p : Nat) : Prop := ∃ b, .killed p .kill b ∈ s.since p

structure Ending (s : State) : Prop where
  /-- Nothing is restarted after the main loop. -/
  quiet : s.main.stopping → ∀ f ∈ s.frames, f.forking = false
  killed : s.main.stopping → ∀ p, s.children.isRunning p →
    s.main.Ahead s.pids p ∨ s.Killed p

section Facts
variable {pids : Fin maxProcess → Nat} {running : Bool} {p : Nat}

/-- A scan does not pass a worker over. -/
theorem MainPc.Ahead.next {pc pc' : MainPc} (h : pc.Ahead pids p)
    (hnext : pc.next pids running = some pc') (hp : p ≠ 0) : pc'.Ahead pids p := by
  cases pc <;> simp only [MainPc.next] at hnext <;> try contradiction
  case waitTest timeout =>
    obtain ⟨i, hi⟩ := h
    split at hnext
    · cases hnext
      exact ⟨i, Nat.zero_le _, hi⟩
    · cases hnext
      exact ⟨by omega, i, hi⟩
  case waitScan timeout n =>
    split at hnext
    · next hn =>
      split at hnext
      · cases hnext
        obtain ⟨i, -, hi⟩ := h
        exact ⟨i, hi⟩
      · next hzero =>
        cases hnext
        exact exists_slot_after hn hzero hp h
    · next hn => exact absurd h (no_slot_after hn)
  case killCheck timeout =>
    obtain ⟨htimeout, i, hi⟩ := h
    rw [if_pos htimeout] at hnext
    cases hnext
    exact ⟨i, Nat.zero_le _, hi⟩
  case killTest n =>
    split at hnext
    · next hn =>
      split at hnext
      · cases hnext
        exact h
      · next hzero =>
        cases hnext
        exact exists_slot_after hn hzero hp h
    · next hn => exact absurd h (no_slot_after hn)
  case killLoad n =>
    cases hnext
    obtain ⟨i, hi, hip⟩ := h
    rcases hi.lt_or_eq with hlt | rfl
    · exact .inr ⟨i, hlt, hip⟩
    · exact .inl hip

/-- Clearing a slot that holds another pid. -/
theorem MainPc.Ahead.update {pc : MainPc} (h : pc.Ahead pids p) {i : Fin maxProcess} {v : Nat}
    (hi : pids i ≠ p) : pc.Ahead (Function.update pids i v) p := by
  have hslot : ∀ j, pids j = p → Function.update pids i v j = p :=
    slot_update fun heq => absurd heq hi
  cases pc with
  | waitTest timeout =>
    obtain ⟨j, hj⟩ := h
    exact ⟨j, hslot j hj⟩
  | waitScan timeout n | killTest n | killLoad n =>
    obtain ⟨j, hj, hjp⟩ := h
    exact ⟨j, hj, hslot j hjp⟩
  | killCheck timeout =>
    obtain ⟨htimeout, j, hj⟩ := h
    exact ⟨htimeout, j, hslot j hj⟩
  | killSend n q =>
    rcases h with hq | ⟨j, hj, hjp⟩
    · exact .inl hq
    · exact .inr ⟨j, hj, hslot j hjp⟩
  | _ => exact h

@[simp] theorem MainPc.ahead_interrupt (pc : MainPc) :
    pc.interrupt.Ahead pids p ↔ pc.Ahead pids p := by
  cases pc <;> rfl

theorem MainPc.stopping_of_next {pc pc' : MainPc} (h : pc.next pids running = some pc')
    (hpc' : pc'.stopping) : pc.stopping ∨ pc = .serve ∧ pc' = .waitTest 30 := by
  cases pc <;> simp only [MainPc.next] at h <;> try contradiction
  case spawn i =>
    split at h
    · cases h
    · cases h
      cases hpc'
  case serve =>
    cases running with
    | true =>
      cases h
      cases hpc'
    | false =>
      cases h
      exact .inr ⟨rfl, rfl⟩
  all_goals exact .inl rfl

end Facts

section Steps
variable {s t : State} {act : Act} {p : Nat}

/-- Events other than its fork leave a worker killed. -/
theorem State.Killed.mono (h : s.Killed p) {e : Event} (hlog : t.log = e :: s.log)
    (he : e ≠ .forked p) : t.Killed p := by
  obtain ⟨b, hb⟩ := h
  refine ⟨b, ?_⟩
  rw [State.since, hlog, List.takeWhile_cons_of_pos (by simpa using he)]
  exact List.mem_cons_of_mem e hb

theorem ending_quiet_step (hT : Tabled s) (h : Ending s) (hs : Step s act t) :
    t.main.stopping → ∀ f ∈ t.frames, f.forking = false := by
  intro hstop f hf
  cases hs with
  | chldArrives =>
    rcases List.mem_cons.mp hf with rfl | hf
    · rfl
    · exact h.quiet hstop f hf
  | stopArrives =>
    rcases List.mem_cons.mp hf with rfl | hf
    · rfl
    · exact h.quiet ((MainPc.stopping_interrupt _).symm.trans hstop) f hf
  | mainMove idle | mainFork idle | mainForkFail idle | mainStore idle | mainKill idle
  | mainReap idle | mainDone idle => exact absurd hf (notMem_of_idle idle f)
  | @chldMove pc pc' below top next =>
    rw [hT.stopping hstop] at next
    rcases List.mem_cons.mp hf with rfl | hf
    · exact ChldPc.forking_next next (h.quiet hstop _ (mem_of_top top))
    · exact h.quiet hstop f (mem_of_below top hf)
  | chldFork top => cases h.quiet hstop _ (mem_of_top top)
  | chldReap top | chldClear top | chldForkFail top | chldStore top | shutFlag top | shutMove top
  | shutSend top =>
    rcases List.mem_cons.mp hf with rfl | hf
    · rfl
    · exact h.quiet hstop f (mem_of_below top hf)
  | chldReturn top | shutReturn top => exact h.quiet hstop f (mem_of_below top hf)
  | _ => exact h.quiet hstop f hf

theorem ending_killed_step (hT : Tabled s) (h : Ending s) (hs : Step s act t) :
    t.main.stopping → ∀ p, t.children.isRunning p → t.main.Ahead t.pids p ∨ t.Killed p := by
  intro hstop p hp
  cases hs with
  | die died => exact h.killed hstop p ((Children.die_spec died).2 p hp)
  | stopArrives =>
    have hkilled := h.killed ((MainPc.stopping_interrupt _).symm.trans hstop) p hp
    exact hkilled.imp_left (MainPc.ahead_interrupt _).mpr
  | mainMove idle next =>
    rcases MainPc.stopping_of_next next hstop with hbefore | ⟨hserve, rfl⟩
    · refine (h.killed hbefore p hp).imp_left fun hahead => ?_
      exact hahead.next next (Children.ne_zero_of_mem (Children.mem_of_isRunning hp))
    · -- no handler is active, so every worker is in the table
      rcases hT.cover p hp with hslot | hflight
      · exact .inl hslot
      · have hmain := hflight.of_idle idle
        rw [hserve] at hmain
        cases hmain
  | mainFork | mainForkFail | mainStore => cases hstop
  | @mainKill i q idle main =>
    have hbefore : s.main.stopping := by
      rw [main]
      rfl
    rcases h.killed hbefore p hp with hahead | hkilled
    · rw [main] at hahead
      rcases hahead with rfl | ⟨j, hj, hjp⟩
      · refine .inr ⟨decide (q ∈ s.children.pids), ?_⟩
        show _ ∈ List.takeWhile _ (_ :: _)
        rw [List.takeWhile_cons_of_pos (by simp)]
        exact List.mem_cons_self
      · exact .inl ⟨j, hj, hjp⟩
    · exact .inr (hkilled.mono rfl nofun)
  | mainReap idle main =>
    have hkilled := h.killed (by rw [main]; rfl) p (Children.isRunning_remove hp).2
    rw [main] at hkilled
    exact hkilled
  | mainDone idle main =>
    have hkilled := h.killed (by rw [main]; rfl) p hp
    rw [main] at hkilled
    exact hkilled
  | chldReap => exact h.killed hstop p (Children.isRunning_remove hp).2
  | @chldClear q i below top =>
    have hknows := hT.chld_top top
    refine (h.killed hstop p hp).imp_left fun hahead => hahead.update fun hi => ?_
    rw [hknows.slot q i rfl rfl] at hi
    cases hknows.reaped q rfl (hi ▸ Children.mem_of_isRunning hp)
  | chldFork top | chldStore top => cases h.quiet hstop _ (mem_of_top top)
  | shutFlag | shutSend => exact (h.killed hstop p hp).imp_right fun hk => hk.mono rfl nofun
  | _ => exact h.killed hstop p hp

theorem Ending.step (hT : Tabled s) (h : Ending s) (hs : Step s act t) : Ending t where
  quiet := ending_quiet_step hT h hs
  killed := ending_killed_step hT h hs

end Steps

theorem ending_start : Ending .start where
  quiet := nofun
  killed := nofun

/-- When the main function has returned, each worker that was ever forked has ended or has
been sent SIGKILL. -/
theorem no_orphans {s : State} (h : machine.Reachable s) : NoOrphans s := by
  have hinv : machine.Invariant (fun _ _ => True) fun s => Tabled s ∧ Ending s :=
    (tabled_invariant _).with (by rintro s rfl; exact ending_start)
      fun _ _ _ hT hE _ next => hE.step hT (step_cases next)
  intro hdone after p before hlog
  by_cases hagain : .forked p ∈ after
  · exact .inl (.inl hagain)
  by_cases hrunning : s.children.isRunning p
  · right
    have hsince : s.since p = after := by
      have hall : ∀ e ∈ after, decide (e ≠ .forked p) = true :=
        fun e he => decide_eq_true fun heq => hagain (heq ▸ he)
      rw [State.since, hlog, List.takeWhile_append_of_pos hall,
        List.takeWhile_cons_of_neg (by simp), List.append_nil]
    rcases (hinv.holds h).2.killed (hdone ▸ rfl) p hrunning with hahead | ⟨b, hb⟩
    · rw [hdone] at hahead
      cases hahead
    · exact ⟨b, hsince ▸ hb⟩
  · exact .inl (.inr (Bool.of_not_eq_true hrunning))

/-- A worker that ignores SIGTERM is killed when the time is over; a second signal interrupts
the last wait, so it is still there at the end. -/
theorem no_orphans_killed : ∃ s : State,
    (s.main = .done ∧ s.children.isRunning 101 ∧ .killed 101 .kill true ∈ s.log) ∧
      NoOrphans s := by
  have hrun : (machine.run (fun _ _ => True) .start
      ([.fork 101, .tick, .forkFail, .forkFail, .forkFail, .tick, .deliver .term] ++
        List.replicate 78 .tick ++ [.deliver .int] ++ List.replicate 8 .tick ++
        [.reapNone])).map
        (fun s => decide (s.main = .done ∧ s.children.isRunning 101 ∧
          .killed 101 .kill true ∈ s.log)) = some true := by
    decide +kernel
  obtain ⟨s, hs, hdone⟩ := Option.map_eq_some_iff.mp hrun
  exact ⟨s, of_decide_eq_true hdone, no_orphans (Machine.ReachableBy.run (.init rfl) hs)⟩

end MinhServer.Master
