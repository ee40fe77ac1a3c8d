import MinhServer.Admission

namespace MinhServer
open CString Slots

/-- `checkIdleConnections` removes the client. -/
def ClientInfo.IsIdle (client : ClientInfo) (now : Int) : Prop :=
  0 < client.fd ∧ 30 < now - client.connectTime

instance (client : ClientInfo) (now : Int) : Decidable (client.IsIdle now) :=
  inferInstanceAs (Decidable (_ ∧ _))

/-- The entry of a slot after the check. -/
def ClientInfo.checked (now : Int) (client : ClientInfo) : ClientInfo :=
  if client.IsIdle now then { client with fd := -1 } else client

section Check
variable {s t u : SelectState} {now : Int} {i : Fin maxClients}

theorem checkIdleClient_spec (h : checkIdleClient now s i = .ok t) :
    t.server.clients =
        Function.update s.server.clients i ((s.server.clients i).checked now) ∧
      if (s.server.clients i).IsIdle now then t.worker.fds = s.worker.fds.erase (s.server.fd i)
      else t.worker = s.worker := by
  change (if (s.server.clients i).IsIdle now then removeClientFromSelect i s else .ok s) =
    .ok t at h
  by_cases hidle : (s.server.clients i).IsIdle now
  · rw [if_pos hidle] at h
    obtain ⟨m, -, rfl⟩ := removeClient_spec (hidle.1.le : 0 ≤ s.server.fd i) h
    rw [ClientInfo.checked, if_pos hidle, if_pos hidle]
    exact ⟨rfl, rfl⟩
  · rw [if_neg hidle] at h
    cases h
    rw [ClientInfo.checked, if_neg hidle, if_neg hidle, Function.update_eq_self]
    exact ⟨rfl, rfl⟩

/-- The check clears the slots of the idle clients and closes their descriptors. -/
theorem checkIdleConnections_spec (h : checkIdleConnections now s = .ok t) (i : Fin maxClients) :
    t.server.clients i = (s.server.clients i).checked now ∧
      ((s.server.clients i).IsIdle now → s.server.fd i ∉ t.worker.fds) := by
  let Closed (v : SelectState) : Prop := ∀ j,
    v.server.clients j = s.server.clients j ∨ s.server.fd j ∉ v.worker.fds
  have hstep : ∀ v j w, Closed v → checkIdleClient now v j = .ok w → Closed w ∧
      w.server.clients = Function.update v.server.clients j ((v.server.clients j).checked now) ∧
      ([] : List Event) = [] ++ [] := by
    intro v j w hv hcheck
    obtain ⟨hclients, hfds⟩ := checkIdleClient_spec hcheck
    refine ⟨fun k => ?_, hclients, rfl⟩
    by_cases hidle : (v.server.clients j).IsIdle now
    · rw [if_pos hidle] at hfds
      rcases hv k with hsame | hclosed
      · by_cases hkj : k = j
        · subst hkj
          refine .inr ?_
          have hfd : v.server.fd k = s.server.fd k := congrArg ClientInfo.fd hsame
          rw [hfds, hfd]
          exact Finset.notMem_erase _ _
        · refine .inl ?_
          rw [hclients, Function.update_of_ne hkj]
          exact hsame
      · refine .inr ?_
        rw [hfds]
        exact fun hmem => hclosed (Finset.mem_of_mem_erase hmem)
    · rw [if_neg hidle] at hfds
      rw [hfds, hclients, ClientInfo.checked, if_neg hidle, Function.update_eq_self]
      exact hv k
  obtain ⟨hclosed, hclients, -⟩ := rewrite_each Closed (fun v : SelectState => v.server.clients)
    (fun _ client => client.checked now) (fun _ => []) (fun _ _ => []) hstep
    (List.nodup_finRange _) (fun _ => .inl rfl) h
  have hslot : t.server.clients i = (s.server.clients i).checked now :=
    (hclients i).trans (if_pos (List.mem_finRange i))
  refine ⟨hslot, fun hidle => (hclosed i).resolve_left fun hsame => ?_⟩
  rw [hslot, ClientInfo.checked, if_pos hidle] at hsame
  have hfd := congrArg ClientInfo.fd hsame
  have hpos := hidle.1
  dsimp only at hfd
  omega

end Check

section Calls
variable {homeDir : Bytes} {s t : SelectState} {turn : Turn} {i : Fin maxClients}

theorem handleSelectEvents_failed (hselect : turn.select = .failed)
    (h : handleSelectEvents homeDir turn s = .ok t) : t.server.clients = s.server.clients := by
  unfold handleSelectEvents at h
  obtain ⟨v, hv, h⟩ := bind_eq_ok.mp h
  rw [hselect] at h
  cases h
  exact (purgeMasterFds_spec hv).1

theorem handleSelectEvents_timeout (hselect : turn.select = .timeout)
    (h : handleSelectEvents homeDir turn s = .ok t) (i : Fin maxClients) :
    t.server.clients i = (s.server.clients i).checked turn.now ∧
      ((s.server.clients i).IsIdle turn.now → s.server.fd i ∉ t.worker.fds) := by
  unfold handleSelectEvents at h
  obtain ⟨v, hv, h⟩ := bind_eq_ok.mp h
  have hclients : v.server.clients = s.server.clients := (purgeMasterFds_spec hv).1
  rw [hselect] at h
  have hchecked := checkIdleConnections_spec h i
  simp only [SelectState.withServer, ServerState.fd, hclients] at hchecked
  exact hchecked

theorem handleSelectEvents_left {fds : Finset Int} (hselect : turn.select = .ready fds)
    (hnot : s.server.fd i ∉ fds) (h : handleSelectEvents homeDir turn s = .ok t) :
    t.server.clients i = s.server.clients i ∨ s.server.fd i < 0 := by
  obtain ⟨v, u, hv, hu, h⟩ := handleSelectEvents_ready hselect h
  have hclients : v.server.clients = s.server.clients := (purgeMasterFds_spec hv).1
  have haccepts := acceptNewClient_accepts hu
  rcases haccepts.clients_eq i with hsame | ⟨hfree, -⟩
  · have hkept : u.server.clients i = s.server.clients i := hsame.trans (congrFun hclients i)
    have hunready : ¬ u.server.IsReady i := by
      rintro ⟨-, hmem⟩
      rw [haccepts.readFds_eq.1, ServerState.fd, hkept] at hmem
      exact hnot (Finset.mem_inter.mp hmem).2
    refine .inl ?_
    rw [(serveAll_spec h).1 i, ServerState.afterRound, if_neg hunready, hkept]
  · refine .inr ?_
    rw [ServerState.fd, ← hclients]
    exact hfree

theorem handleSelectEvents_slot (h : handleSelectEvents homeDir turn s = .ok t)
    (i : Fin maxClients) : t.server.clients i = s.server.clients i ∨ t.server.fd i < 0 ∨
      s.server.fd i < 0 ∧ (t.server.clients i).connectTime = turn.now := by
  cases hselect : turn.select with
  | failed => exact .inl (congrFun (handleSelectEvents_failed hselect h) i)
  | timeout =>
    have hchecked := (handleSelectEvents_timeout hselect h i).1
    unfold ClientInfo.checked at hchecked
    split at hchecked
    · refine .inr (.inl ?_)
      rw [ServerState.fd, hchecked]
      exact neg_one_lt_zero
    · exact .inl hchecked
  | ready fds =>
    obtain ⟨v, u, hv, hu, h⟩ := handleSelectEvents_ready hselect h
    have hclients : v.server.clients = s.server.clients := (purgeMasterFds_spec hv).1
    have hround := (serveAll_spec h).1 i
    unfold ServerState.afterRound at hround
    split at hround
    · refine .inr (.inl ?_)
      rw [ServerState.fd, hround]
      exact neg_one_lt_zero
    · rw [hround]
      rcases (acceptNewClient_accepts hu).clients_eq i with hsame | ⟨hfree, fd, -, hfilled⟩
      · exact .inl (hsame.trans (congrFun hclients i))
      · refine .inr (.inr ⟨?_, by rw [hfilled]⟩)
        rw [ServerState.fd, ← hclients]
        exact hfree

end Calls

/-- The select loop, when its last call ended, and since when each client is connected. -/
structure ClockedState where
  select : SelectState
  clock : Int
  since : Fin maxClients → Int

/-- A call, and when it was made; `turn.now` is when `select` is through. -/
structure ClockedTurn where
  calledAt : Int
  turn : Turn

/-- The clock does not run backwards. -/
def ClockedTurn.Follows (e : ClockedTurn) (clock : Int) : Prop :=
  clock ≤ e.calledAt ∧ e.calledAt ≤ e.turn.now

instance (e : ClockedTurn) (clock : Int) : Decidable (e.Follows clock) :=
  inferInstanceAs (Decidable (_ ∧ _))

/-- A slot that was free and is not any more has a client since now. -/
def ClockedState.after (c : ClockedState) (now : Int) (s : SelectState) : ClockedState where
  select := s
  clock := now
  since i := if c.select.server.fd i < 0 ∧ 0 ≤ s.server.fd i then now else c.since i

/-- A worker in select mode under a clock, whatever descriptors `accept` returns. -/
def clockedLoop (homeDir : Bytes) : Machine ClockedState ClockedTurn where
  init c := ∃ mode setup before, sameNoCase mode (ascii "select") ∧
    initSocket mode setup before = .ok (0, c.select)
  step c e :=
    if e.Follows c.clock then
      (handleSelectEvents homeDir e.turn c.select).toOption.map (c.after e.turn.now)
    else none

section Clock
variable {homeDir : Bytes} {c c' : ClockedState} {e : ClockedTurn} {i : Fin maxClients}

theorem clockedLoop_step (h : (clockedLoop homeDir).step c e = some c') :
    e.Follows c.clock ∧ ∃ s, handleSelectEvents homeDir e.turn c.select = .ok s ∧
      c' = c.after e.turn.now s := by
  unfold clockedLoop at h
  dsimp only at h
  split at h
  · next hclock =>
    obtain ⟨s, hs, rfl⟩ := Option.map_eq_some_iff.mp h
    cases hcall : handleSelectEvents homeDir e.turn c.select with
    | error fault =>
      rw [hcall] at hs
      cases hs
    | ok t =>
      rw [hcall] at hs
      cases hs
      exact ⟨hclock, s, rfl, rfl⟩
  · cases h

/-- `connect_time` is when the client was accepted. -/
def ClockedState.Timed (c : ClockedState) : Prop :=
  ∀ i, 0 ≤ c.select.server.fd i → (c.select.server.clients i).connectTime = c.since i

theorem timed_invariant (homeDir : Bytes) :
    (clockedLoop homeDir).Invariant (fun _ _ => True) ClockedState.Timed where
  init := by
    rintro c ⟨mode, setup, before, hmode, h⟩ i hused
    obtain ⟨sockfd, -, hlistening, -⟩ := initSocket_select hmode h
    obtain ⟨-, -, -, -, -, hfree⟩ := ServerState.listening_eq hlistening
    have := hfree i
    omega
  step := by
    intro c e c' hc _ h i hused
    obtain ⟨-, s, hcall, rfl⟩ := clockedLoop_step h
    change 0 ≤ s.server.fd i at hused
    change (s.server.clients i).connectTime =
      if c.select.server.fd i < 0 ∧ 0 ≤ s.server.fd i then e.turn.now else c.since i
    rcases handleSelectEvents_slot hcall i with hsame | hfree | ⟨hfree, htime⟩
    · have hfd : s.server.fd i = c.select.server.fd i := congrArg ClientInfo.fd hsame
      rw [hfd] at hused
      rw [if_neg fun hnew => absurd hnew.1 (not_lt.mpr hused), hsame]
      exact hc i hused
    · omega
    · rw [if_pos ⟨hfree, hused⟩]
      exact htime

/-- The client's slot is free, and its descriptor closed. -/
def Evicted (c c' : ClockedState) (i : Fin maxClients) : Prop :=
  c'.select.server.fd i < 0 ∧ c.select.server.fd i ∉ c'.select.worker.fds

/-- For more than 30 seconds the slot has had its client, who is not reported now. -/
structure Silent (c : ClockedState) (e : ClockedTurn) (i : Fin maxClients) : Prop where
  used : 0 ≤ c.select.server.fd i
  idle : 30 < e.calledAt - c.since i
  unreported : ∀ fds, e.turn.select = .ready fds → c.select.server.fd i ∉ fds

end Clock

/-- In every run under a clock: a call of `handleSelectEvents` evicts a silent client if and only
if `select` times out in it, which the traffic of the other clients decides, and the client's
descriptor is not 0. -/
theorem idle_evicted_iff (homeDir : Bytes) (c : ClockedState)
    (h : (clockedLoop homeDir).Reachable c) (e : ClockedTurn) (c' : ClockedState)
    (hstep : (clockedLoop homeDir).step c e = some c') (hselect : e.turn.select ≠ .failed)
    (i : Fin maxClients) (hsilent : Silent c e i) :
    Evicted c c' i ↔ e.turn.select = .timeout ∧ c.select.server.fd i ≠ 0 := by
  have htime := (timed_invariant homeDir).holds h i hsilent.used
  obtain ⟨⟨-, hlater⟩, t, hcall, rfl⟩ := clockedLoop_step hstep
  have hused := hsilent.used
  cases hresult : e.turn.select with
  | failed => exact absurd hresult hselect
  | ready fds =>
    -- a silent client is not reported, so its slot is not touched
    have hstays : t.server.fd i = c.select.server.fd i := by
      rcases handleSelectEvents_left hresult (hsilent.unreported fds hresult) hcall with
        hsame | hfree
      · exact congrArg ClientInfo.fd hsame
      · omega
    refine iff_of_false (fun hevicted => ?_) (by simp)
    have hfree : t.server.fd i < 0 := hevicted.1
    omega
  | timeout =>
    obtain ⟨hchecked, hclosed⟩ := handleSelectEvents_timeout hresult hcall i
    -- the check asks for a positive descriptor, a slot in use has one from 0 on
    have hidle : (c.select.server.clients i).IsIdle e.turn.now ↔ c.select.server.fd i ≠ 0 := by
      have := hsilent.idle
      unfold ClientInfo.IsIdle
      change 0 < c.select.server.fd i ∧ _ ↔ _
      omega
    rw [ClientInfo.checked] at hchecked
    constructor
    · rintro ⟨hfree, -⟩
      refine ⟨rfl, hidle.mp ?_⟩
      by_contra hbusy
      rw [if_neg hbusy] at hchecked
      have hsame : t.server.fd i = c.select.server.fd i := congrArg ClientInfo.fd hchecked
      change t.server.fd i < 0 at hfree
      omega
    · rintro ⟨-, hpositive⟩
      have hgone := hidle.mpr hpositive
      rw [if_pos hgone] at hchecked
      refine ⟨?_, hclosed hgone⟩
      change t.server.fd i < 0
      rw [ServerState.fd, hchecked]
      exact neg_one_lt_zero

def callAt200 (select : SelectResult) (accept : Option Int) : ClockedTurn where
  calledAt := 200
  turn := ⟨select, accept, 200, quietVisit⟩

/-- The first client connects at time 100. At time 200 `select` may time out or report the
listening socket. -/
theorem exists_connected : ∃ c timedOut accepting : ClockedState,
    (clockedLoop (ascii "./www")).Reachable c ∧
      (c.select.server.fd 0 = 4 ∧ c.since 0 = 100) ∧
      (clockedLoop (ascii "./www")).step c (callAt200 .timeout none) = some timedOut ∧
      (clockedLoop (ascii "./www")).step c (callAt200 (.ready {3}) (some 5)) = some accepting ∧
      accepting.select.server.fd 0 = 4 := by
  have hrun : ((clockedLoop (ascii "./www")).run (fun _ _ => True)
      ⟨startedIn (ascii "select"), 90, fun _ => 0⟩
      [⟨95, .ready {3}, some 4, 100, quietVisit⟩]).map
      (fun c => ((c.select.server.fd 0, c.since 0),
        ((clockedLoop (ascii "./www")).step c (callAt200 .timeout none)).isSome,
        ((clockedLoop (ascii "./www")).step c (callAt200 (.ready {3}) (some 5))).map
          fun c' => c'.select.server.fd 0)) = some ((4, 100), true, some 4) := by
    decide +kernel
  obtain ⟨c, hc, hnext⟩ := Option.map_eq_some_iff.mp hrun
  simp only [Prod.mk.injEq] at hnext
  obtain ⟨hclient, htimeout, haccept⟩ := hnext
  obtain ⟨timedOut, htimedOut⟩ := Option.isSome_iff_exists.mp htimeout
  obtain ⟨accepting, haccepting, hstays⟩ := Option.map_eq_some_iff.mp haccept
  have hinit : (clockedLoop (ascii "./www")).init
      ⟨startedIn (ascii "select"), 90, fun _ => 0⟩ :=
    ⟨_, _, standardState, by decide +kernel, initSocket_standard (ascii "select")⟩
  have hreach := Machine.ReachableBy.run (.init hinit) hc
  exact ⟨c, timedOut, accepting, hreach, hclient, htimedOut, haccepting, hstays⟩

/-- When nobody else is ready the client goes. -/
theorem idle_evicted_iff_timeout : ∃ c c' : ClockedState,
    Silent c (callAt200 .timeout none) 0 ∧ Evicted c c' 0 := by
  obtain ⟨c, c', -, hreach, ⟨hfd, hsince⟩, hstep, -⟩ := exists_connected
  have hsilent : Silent c (callAt200 .timeout none) 0 := by
    refine ⟨by omega, ?_, fun fds hready => by cases hready⟩
    rw [hsince]
    decide
  refine ⟨c, c', hsilent, ?_⟩
  refine (idle_evicted_iff _ c hreach _ c' hstep (by simp [callAt200]) 0 hsilent).mpr ⟨rfl, ?_⟩
  omega

/-- A client that connects keeps the silent one in its slot. -/
theorem silent_not_evicted : ¬ ∀ homeDir c, (clockedLoop homeDir).Reachable c →
    ∀ e c', (clockedLoop homeDir).step c e = some c' → e.turn.select ≠ .failed →
      ∀ i, Silent c e i → Evicted c c' i := by
  intro h
  obtain ⟨c, -, c', hreach, ⟨hfd, hsince⟩, -, hstep, hstays⟩ := exists_connected
  have hsilent : Silent c (callAt200 (.ready {3}) (some 5)) 0 := by
    refine ⟨by omega, ?_, fun fds hready => ?_⟩
    · rw [hsince]
      decide
    · obtain rfl := SelectResult.ready.inj hready
      rw [hfd]
      decide
  have hevicted := (h _ c hreach _ c' hstep (by simp [callAt200]) 0 hsilent).1
  omega

end MinhServer
