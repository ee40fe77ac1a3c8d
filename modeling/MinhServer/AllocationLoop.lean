import MinhServer.AllocationRuns
import MinhServer.BlockingRuns

namespace MinhServer.Allocating
open CString Wire

def serveClient (homeDir : Bytes) (visit : Visit) (s : SelectState) (i : Fin maxClients)
    (h : Heap) : Except Crash (SelectState × Heap) := do
  let clientFd := s.server.fd i
  let w := { s.worker with sends := visit.sends }
  let (session, h) ← handleOneClientRequest .nonblocking clientFd homeDir visit.disk visit.peer w h
  let s := (s.notify (.served i clientFd)).withWorker session.worker
  let s ← plain (if clientFd ∈ session.worker.fds then .ok s else removeClientFromSelect i s)
  .ok (s, h)

def serveIfReady (homeDir : Bytes) (turn : Turn) (sh : SelectState × Heap) (i : Fin maxClients) :
    Except Crash (SelectState × Heap) :=
  let (s, h) := sh
  if 0 < s.server.fd i then do
    if ← plain (s.server.readFds.isSet (s.server.fd i)) then
      serveClient homeDir (turn.visit i) s i h
    else .ok (s, h)
  else .ok (s, h)

def handleSelectEvents (homeDir : Bytes) (turn : Turn) (s : SelectState) (h : Heap) :
    Except Crash (SelectState × Heap) := do
  let s ← plain (purgeMasterFds s.server.watched s)
  let s := s.withServer { s.server with readFds := s.server.masterFds }
  match turn.select with
  | .failed => .ok (s, h)
  | .timeout => do
    let s ← plain (checkIdleConnections turn.now s)
    .ok (s, h)
  | .ready fds => do
    let s := s.withServer { s.server with readFds := s.server.readFds.keep fds }
    let s ← plain (acceptNewClient turn s)
    (List.finRange maxClients).foldlM (serveIfReady homeDir turn) (s, h)

/-- The select loop on a heap, which starts with the global response zeroed. -/
def selectLoop (homeDir : Bytes) : Machine (SelectState × Heap) Turn where
  init sh := (MinhServer.selectLoop homeDir).init sh.1 ∧ sh.1.worker.res.body = none
  step sh turn :=
    if turn.AcceptsFresh sh.1 then (handleSelectEvents homeDir turn sh.1 sh.2).toOption else none

section Loop
variable {homeDir : Bytes} {turn : Turn} {visit : Visit} {s t u : SelectState}
  {i : Fin maxClients} {h : Heap}

theorem removeClient_res {clientIndex : Int} (h : removeClientFromSelect clientIndex s = .ok t) :
    t.worker.res = s.worker.res := by
  rcases removeClient_cases h with ⟨rfl, -⟩ | ⟨i, rfl, hi⟩
  · rfl
  · obtain ⟨m, -, rfl⟩ := removeClient_spec hi h
    rfl

theorem checkIdle_res {now : Int} (h : checkIdleConnections now s = .ok t) :
    t.worker.res = s.worker.res := by
  refine Ensures.of_foldlM (I := fun v : SelectState => v.worker.res = s.worker.res) ?_ rfl h
  intro v i w hv hcheck
  unfold checkIdleClient at hcheck
  split at hcheck
  · exact (removeClient_res hcheck).trans hv
  · cases hcheck
    exact hv

theorem acceptNewClient_res (h : acceptNewClient turn s = .ok t) :
    t.worker.res = s.worker.res := by
  unfold acceptNewClient at h
  obtain ⟨ready, -, h⟩ := bind_eq_ok.mp h
  split at h
  · split at h
    · cases h
      rfl
    · next fd _ =>
      obtain ⟨⟨index, v⟩, hadd, h⟩ := bind_eq_ok.mp h
      cases h
      rcases addClient_cases hadd with ⟨-, ⟨-, rfl⟩ | ⟨-, -, rfl⟩⟩ | ⟨i, m, -, -, -, -, rfl⟩
      · rfl
      · rfl
      · rfl
  · cases h
    rfl

theorem serveClient_mirrors (hs : InOrder s) (hi : 0 ≤ s.server.fd i)
    (hbody : s.worker.res.body = none) (h : Heap) :
    Mirrors Crash.fault
      (fun t result => result.1 = t ∧ t.worker.res.body = none ∧
        h.Holds ∅ (aloneBlocks .nonblocking homeDir (s.server.fd i) visit) result.2)
      (MinhServer.serveClient homeDir visit s i) (serveClient homeDir visit s i h) := by
  have hsession := @session_alone .nonblocking homeDir (s.server.fd i) visit
    { s.worker with sends := visit.sends } (hs.client_open hi) rfl hbody h
  unfold serveClient MinhServer.serveClient
  refine hsession.bind ?_
  rintro session ⟨_, h₁⟩ ⟨rfl, hleft, hheld⟩
  refine (plain_mirrors _).with_eq.bind_right ?_
  rintro t _ ⟨hremove, rfl⟩
  refine .ok ⟨rfl, ?_, hheld⟩
  split at hremove
  · cases hremove
    exact hleft
  · rw [removeClient_res hremove]
    exact hleft

/-- What the sessions of these clients leave, each in a process of its own. -/
def visitBlocks (homeDir : Bytes) (visits : List (Int × Visit)) : Nat :=
  (visits.map fun v => aloneBlocks .nonblocking homeDir v.1 v.2).sum

theorem visitBlocks_append (homeDir : Bytes) (visits visits' : List (Int × Visit)) :
    visitBlocks homeDir (visits ++ visits') =
      visitBlocks homeDir visits + visitBlocks homeDir visits' := by
  rw [visitBlocks, List.map_append, List.sum_append]
  rfl

def slotBlocks (homeDir : Bytes) (turn : Turn) (server : ServerState) (i : Fin maxClients) : Nat :=
  if server.IsReady i then aloneBlocks .nonblocking homeDir (server.fd i) (turn.visit i) else 0

theorem serveIfReady_mirrors (hs : InOrder s) (hbody : s.worker.res.body = none) (h : Heap) :
    Mirrors Crash.fault
      (fun t result => result.1 = t ∧ t.worker.res.body = none ∧
        h.Holds ∅ (slotBlocks homeDir turn s.server i) result.2)
      (MinhServer.serveIfReady homeDir turn s i) (serveIfReady homeDir turn (s, h) i) := by
  unfold serveIfReady MinhServer.serveIfReady
  dsimp only
  by_cases hpos : 0 < s.server.fd i
  · rw [if_pos hpos, if_pos hpos, FdSet.isSet_of_inRange (hs.fd_inRange hpos.le)]
    by_cases hset : s.server.fd i ∈ s.server.readFds.fds
    · have hready : s.server.IsReady i := ⟨hpos, hset⟩
      have hserve := @serveClient_mirrors homeDir (turn.visit i) s i hs hpos.le hbody h
      rw [slotBlocks, if_pos hready]
      simpa only [Bind.bind, Except.bind, plain, Except.mapError, hset, decide_true, if_true]
        using hserve
    · have hready : ¬ s.server.IsReady i := fun hready => hset hready.2
      rw [slotBlocks, if_neg hready]
      simpa only [Bind.bind, Except.bind, plain, Except.mapError, hset, decide_false,
        Bool.false_eq_true, if_false] using .ok ⟨rfl, hbody, .refl h⟩
  · have hready : ¬ s.server.IsReady i := fun hready => hpos hready.1
    rw [if_neg hpos, if_neg hpos, slotBlocks, if_neg hready]
    exact .ok ⟨rfl, hbody, .refl h⟩

theorem slotBlocks_after {j : Fin maxClients}
    (hserve : MinhServer.serveIfReady homeDir turn s i = .ok t) (hj : j ≠ i) :
    slotBlocks homeDir turn t.server j = slotBlocks homeDir turn s.server j := by
  obtain ⟨hclients, ⟨hsets, -⟩, -⟩ := serveIfReady_spec hserve
  have hfd : t.server.fd j = s.server.fd j := by
    rw [ServerState.fd, hclients, Function.update_of_ne hj]
    rfl
  have hready : t.server.IsReady j ↔ s.server.IsReady j := by
    unfold ServerState.IsReady
    rw [hfd, hsets]
  rw [slotBlocks, slotBlocks, hfd]
  exact if_congr hready rfl rfl

theorem serveAll_mirrors {slots : List (Fin maxClients)} (hslots : slots.Nodup) (hs : InOrder s)
    (hbody : s.worker.res.body = none) (h : Heap) :
    Mirrors Crash.fault
      (fun t result => result.1 = t ∧ t.worker.res.body = none ∧
        h.Holds ∅ (slots.map (slotBlocks homeDir turn s.server)).sum result.2)
      (slots.foldlM (MinhServer.serveIfReady homeDir turn) s)
      (slots.foldlM (serveIfReady homeDir turn) (s, h)) := by
  induction slots generalizing s h with
  | nil => exact .ok ⟨rfl, hbody, .refl h⟩
  | cons i slots ih =>
    obtain ⟨hi, hslots⟩ := List.nodup_cons.mp hslots
    rw [List.foldlM_cons, List.foldlM_cons]
    refine (serveIfReady_mirrors hs hbody h).with_eq.bind ?_
    rintro _ ⟨u, h₁⟩ ⟨hround, rfl, hleft, hheld⟩
    have hrest : slots.map (slotBlocks homeDir turn u.server) =
        slots.map (slotBlocks homeDir turn s.server) := by
      refine List.map_congr_left fun j hj => slotBlocks_after hround ?_
      rintro rfl
      exact hi hj
    refine (ih hslots (hs.serveIfReady hround) hleft h₁).mono ?_
    rintro t result ⟨rfl, hend, hlater⟩
    rw [hrest] at hlater
    rw [List.map_cons, List.sum_cons]
    exact ⟨rfl, hend, hheld.later hlater⟩

theorem slotBlocks_sum {fds : Finset Int} (hs : InOrder s) (hfresh : turn.AcceptsFresh s)
    (hselect : turn.select = .ready fds) (hu : Accepts turn (s.selected fds) u) :
    ((List.finRange maxClients).map (slotBlocks homeDir turn u.server)).sum =
      visitBlocks homeDir (s.visits turn) := by
  have hslot : slotBlocks homeDir turn u.server = fun i =>
      if Reported s fds i then aloneBlocks .nonblocking homeDir (s.server.fd i) (turn.visit i)
      else 0 := by
    funext i
    refine ite_congr (propext (hs.isReady_iff hfresh hu)) (fun hreported => ?_) fun _ => rfl
    rw [hu.fd_of_reported hreported]
  unfold visitBlocks SelectState.visits
  rw [hslot, hselect, List.sum_map_ite, List.sum_map_zero, Nat.add_zero]
  dsimp only
  rw [List.map_map]
  rfl

/-- A call on a heap. -/
theorem call_mirrors (hs : InOrder s) (hfresh : turn.AcceptsFresh s)
    (hbody : s.worker.res.body = none) (h : Heap) :
    Mirrors Crash.fault
      (fun t result => result.1 = t ∧ t.worker.res.body = none ∧
        h.Holds ∅ (visitBlocks homeDir (s.visits turn)) result.2)
      (MinhServer.handleSelectEvents homeDir turn s) (handleSelectEvents homeDir turn s h) := by
  have hpurge : plain (purgeMasterFds s.server.watched s) = .ok s := by
    rw [hs.purge_watched]
    rfl
  unfold handleSelectEvents
  rw [hpurge]
  cases hselect : turn.select with
  | ready fds =>
    have hready : InOrder (s.selected fds) := hs.withReadFds _
    rw [hs.ready_eq hselect]
    refine (plain_mirrors (acceptNewClient turn (s.selected fds))).with_eq.bind ?_
    rintro u _ ⟨haccept, rfl⟩
    have hu := acceptNewClient_accepts haccept
    have hleft : u.worker.res.body = none := (congrArg _ (acceptNewClient_res haccept)).trans hbody
    rw [← slotBlocks_sum hs hfresh hselect hu]
    exact serveAll_mirrors (List.nodup_finRange _) (hready.acceptNew hfresh haccept) hleft h
  | failed =>
    have hnone : s.visits turn = [] := by
      unfold SelectState.visits
      rw [hselect]
    rw [hnone]
    simp only [MinhServer.handleSelectEvents, hs.purge_watched, Bind.bind, Except.bind, hselect]
    exact .ok ⟨rfl, hbody, .refl h⟩
  | timeout =>
    have hnone : s.visits turn = [] := by
      unfold SelectState.visits
      rw [hselect]
    let polled := s.withServer { s.server with readFds := s.server.masterFds }
    have hidle : MinhServer.handleSelectEvents homeDir turn s =
        checkIdleConnections turn.now polled := by
      simp only [MinhServer.handleSelectEvents, hs.purge_watched, Bind.bind, Except.bind, hselect]
      rfl
    rw [hnone, hidle, ok_bind]
    refine (plain_mirrors (checkIdleConnections turn.now polled)).with_eq.bind_right ?_
    rintro t _ ⟨hcheck, rfl⟩
    exact .ok ⟨rfl, (congrArg _ (checkIdle_res hcheck)).trans hbody, .refl h⟩

end Loop

section Runs
variable {homeDir : Bytes} {s t : SelectState} {h h' : Heap} {turn : Turn}

theorem selectLoop_carries (homeDir : Bytes) :
    (MinhServer.selectLoop homeDir).Carries (selectLoop homeDir)
      (fun s => InOrder s ∧ s.worker.res.body = none) SelectState.visits
      (fun visits h h' => h.Holds ∅ (visitBlocks homeDir visits) h') := by
  refine .of_mirrors Crash.fault (fun _ _ => rfl) (fun _ _ => rfl) ?_ ?_
  · rintro s h ⟨hinit, hbody⟩
    exact ⟨(inOrder_invariant homeDir).init s hinit, hbody⟩
  · rintro s h turn ⟨hs, hbody⟩ hfresh
    refine (call_mirrors hs hfresh hbody h).with_eq.mono ?_
    rintro t result ⟨hcall, rfl, hleft, hheld⟩
    exact ⟨rfl, ⟨hs.handleSelectEvents hfresh hcall, hleft⟩, hheld⟩

theorem runVisits_cons (turns : List Turn)
    (hstep : (MinhServer.selectLoop homeDir).step s turn = some t) :
    runVisits homeDir s (turn :: turns) = s.visits turn ++ runVisits homeDir t turns := by
  rw [runVisits, hstep]

end Runs

/-- A worker in select mode runs on a heap as it does without one and never frees what is not
allocated. What it has allocated stays so and grows by what the clients' sessions leave, each
session as in a process of its own. -/
theorem worker_heap {homeDir : Bytes} {s : SelectState} {h : Heap} (turns : List Turn)
    (hs : (selectLoop homeDir).Reachable (s, h)) :
    ((selectLoop homeDir).run (fun _ _ => True) (s, h) turns).map Prod.fst =
        (MinhServer.selectLoop homeDir).run (fun _ _ => True) s turns ∧
      ∀ t h', (selectLoop homeDir).run (fun _ _ => True) (s, h) turns = some (t, h') →
        h.live ⊆ h'.live ∧
          h'.live.card = h.live.card + visitBlocks homeDir (runVisits homeDir s turns) ∧
          ∀ turn, turn.AcceptsFresh t →
            handleSelectEvents homeDir turn t h' ≠ .error .badFree := by
  have hcarries := selectLoop_carries homeDir
  obtain ⟨hsame, hend⟩ := hcarries.run (fun h => .refl h)
    (fun hfirst hlater => visitBlocks_append homeDir _ _ ▸ hfirst.later hlater)
    (fun _ => rfl) (fun _ _ _ turns _ hstep => runVisits_cons turns hstep)
    (hcarries.reachable hs) h turns
  refine ⟨hsame, fun t h' hrun => ?_⟩
  obtain ⟨⟨ht, hbody⟩, hheld⟩ := hend t h' hrun
  refine ⟨hheld.kept, hheld.card, fun turn hfresh => ?_⟩
  exact (call_mirrors ht hfresh hbody h').ne_error fault_ne_badFree

/-- Two clients, one of which asks for a missing file. -/
theorem worker_heap_two : ∃ (s t : SelectState) (h' : Heap) (turns : List Turn),
    t.events = [.connected 0 4, .connected 1 5, .served 0 4, .disconnected 0 4] ∧
      h'.live.card = visitBlocks (ascii "./www") (runVisits (ascii "./www") s turns) ∧
      h'.live.card = 4 := by
  let visit : Visit :=
    ⟨.ofSegments [ascii "GET /a HTTP/1.1\r\n\r\n"], [], ⟨fun _ => false, fun _ => none⟩⟩
  have hrun : ((selectLoop (ascii "./www")).run (fun _ _ => True)
      (startedIn (ascii "select"), .empty) (twoClients visit)).map
        (fun (t, h) => (t.events, h.live.card)) =
      some ([.connected 0 4, .connected 1 5, .served 0 4, .disconnected 0 4], 4) := by
    decide +kernel
  obtain ⟨⟨t, h'⟩, ht, hresult⟩ := Option.map_eq_some_iff.mp hrun
  obtain ⟨hevents, hfour⟩ := Prod.mk.inj hresult
  have hinit : (selectLoop (ascii "./www")).init (startedIn (ascii "select"), .empty) :=
    ⟨init_started _, rfl⟩
  obtain ⟨-, hcard, -⟩ := (worker_heap (twoClients visit) (.init hinit)).2 t h' ht
  exact ⟨_, t, h', _, hevents, hcard.trans (Nat.zero_add _), hfour⟩

def runServerPass (homeDir mode : Bytes) (pass : Pass) (r : RunState) (h : Heap) :
    Except Crash (RunState × Heap) :=
  if sameNoCase mode (ascii "blocking") then
    let (conn, w) := acceptClient pass.accept r.sockfd r.select.worker
    let r := r.attempt pass.accept w
    if conn = -1 then .ok (r, h)
    else do
      let w := { w with sends := pass.visit.sends }
      let (session, h) ←
        handleOneClientRequest .blocking conn homeDir pass.visit.disk pass.visit.peer w h
      .ok (r.handle conn session.worker, h)
  else if sameNoCase mode (ascii "select") then do
    let (s, h) ← handleSelectEvents homeDir pass.turn r.select h
    .ok ({ r with select := s }, h)
  else .ok (r, h)

/-- The loop of `runServer` on a heap. -/
def runServer (homeDir mode : Bytes) : Machine (RunState × Heap) Pass where
  init rh := (MinhServer.runServer homeDir mode).init rh.1 ∧ rh.1.select.worker.res.body = none
  step rh pass :=
    if pass.AcceptsNew rh.1 then (runServerPass homeDir mode pass rh.1 rh.2).toOption else none

/-- What the sessions of these connections leave, each in a process of its own. -/
def connectionBlocks (homeDir : Bytes) (visits : List (Int × Visit)) : Nat :=
  (visits.map fun v => aloneBlocks .blocking homeDir v.1 v.2).sum

/-- The connections that are served, as long as the process listens. -/
def servedVisits (r : RunState) (passes : List Pass) : List (Int × Visit) :=
  if r.sockfd ∈ r.fds then acceptedVisits passes else []

section Passes
variable {homeDir mode : Bytes} {pass : Pass} {passes : List Pass} {r t : RunState} {h h' : Heap}

theorem connectionBlocks_append (homeDir : Bytes) (visits visits' : List (Int × Visit)) :
    connectionBlocks homeDir (visits ++ visits') =
      connectionBlocks homeDir visits + connectionBlocks homeDir visits' := by
  rw [connectionBlocks, List.map_append, List.sum_append]
  rfl

theorem servedVisits_cons (hmode : sameNoCase mode (ascii "blocking")) (hnew : pass.AcceptsNew r)
    (hpass : MinhServer.runServerPass homeDir mode pass r = .ok t) :
    servedVisits r (pass :: passes) = servedVisits r [pass] ++ servedVisits t passes := by
  rcases runServerPass_blocking hmode hnew hpass with
    ⟨hfails, rfl⟩ | ⟨conn, w, hopen, haccept, rfl, hstays⟩
  · have hclosed : r.sockfd ∉ (r.attempt pass.accept (r.select.worker.close r.sockfd)).fds :=
      Finset.notMem_erase _ _
    have hnone : servedVisits (r.attempt pass.accept (r.select.worker.close r.sockfd)) passes =
        [] := if_neg hclosed
    rw [hnone, List.append_nil]
    refine ite_congr rfl (fun hopen => ?_) fun _ => rfl
    have haccept := hfails.resolve_left (not_not.mpr hopen)
    rw [acceptedVisits, acceptedVisits, haccept]
  · have hstill : servedVisits ((r.attempt (some conn)
        { r.select.worker with fds := insert conn r.fds }).handle conn w) passes =
          acceptedVisits passes := if_pos (hstays _ hopen)
    rw [hstill, servedVisits, servedVisits, if_pos hopen, if_pos hopen]
    simp only [acceptedVisits, haccept, List.singleton_append]

/-- A pass on a heap. -/
theorem pass_mirrors (hmode : sameNoCase mode (ascii "blocking")) (hnew : pass.AcceptsNew r)
    (hbody : r.select.worker.res.body = none) (h : Heap) :
    Mirrors Crash.fault
      (fun t result => result.1 = t ∧ t.select.worker.res.body = none ∧
        h.Holds ∅ (connectionBlocks homeDir (servedVisits r [pass])) result.2)
      (MinhServer.runServerPass homeDir mode pass r) (runServerPass homeDir mode pass r h) := by
  unfold MinhServer.runServerPass runServerPass
  rw [if_pos hmode, if_pos hmode]
  by_cases hopen : r.sockfd ∈ r.fds
  · cases haccept : pass.accept with
    | none =>
      rw [acceptClient_none hopen, servedVisits, if_pos hopen, acceptedVisits, haccept]
      exact .ok ⟨rfl, hbody, .refl h⟩
    | some conn =>
      obtain ⟨hpos, -⟩ := hnew conn haccept
      have hvalid : conn ≠ -1 := by omega
      have hblocks : connectionBlocks homeDir (servedVisits r [pass]) =
          aloneBlocks .blocking homeDir conn pass.visit := by
        rw [servedVisits, if_pos hopen, acceptedVisits, haccept]
        exact List.sum_singleton
      rw [acceptClient_some conn hopen, hblocks]
      dsimp only
      rw [if_neg hvalid, if_neg hvalid]
      let start : Worker :=
        { r.select.worker with fds := insert conn r.fds, sends := pass.visit.sends }
      have hsession := @session_alone .blocking homeDir conn pass.visit start
        (Finset.mem_insert_self conn r.fds) rfl hbody h
      refine hsession.bind ?_
      rintro session ⟨_, h₁⟩ ⟨rfl, hleft, hheld⟩
      exact .ok ⟨rfl, hleft, hheld⟩
  · rw [acceptClient_closed pass.accept hopen, servedVisits, if_neg hopen]
    exact .ok ⟨rfl, hbody, .refl h⟩

theorem runServer_visits (hmode : sameNoCase mode (ascii "blocking"))
    (hstep : (MinhServer.runServer homeDir mode).step r pass = some t) :
    servedVisits r (pass :: passes) = servedVisits r [pass] ++ servedVisits t passes := by
  obtain ⟨hnew, hpass⟩ := MinhServer.runServer_step hstep
  exact servedVisits_cons hmode hnew hpass

theorem runServer_carries (homeDir : Bytes) (hmode : sameNoCase mode (ascii "blocking")) :
    (MinhServer.runServer homeDir mode).Carries (runServer homeDir mode)
      (fun r => r.select.worker.res.body = none) (fun r pass => servedVisits r [pass])
      (fun visits h h' => h.Holds ∅ (connectionBlocks homeDir visits) h') := by
  refine .of_mirrors Crash.fault (fun _ _ => rfl) (fun _ _ => rfl) (fun r h hinit => hinit.2) ?_
  intro r h pass hbody hnew
  exact pass_mirrors hmode hnew hbody h

end Passes

/-- So does a server in blocking mode, until the first `accept` that fails; from then on it
allocates nothing. -/
theorem server_heap {homeDir mode : Bytes} {r : RunState} {h : Heap} (passes : List Pass)
    (hmode : sameNoCase mode (ascii "blocking")) (hinit : (runServer homeDir mode).init (r, h)) :
    ((runServer homeDir mode).run (fun _ _ => True) (r, h) passes).map Prod.fst =
        (MinhServer.runServer homeDir mode).run (fun _ _ => True) r passes ∧
      ∀ t h', (runServer homeDir mode).run (fun _ _ => True) (r, h) passes = some (t, h') →
        h.live ⊆ h'.live ∧
          h'.live.card = h.live.card + connectionBlocks homeDir (acceptedVisits passes) ∧
          ∀ pass, pass.AcceptsNew t → runServerPass homeDir mode pass t h' ≠ .error .badFree := by
  obtain ⟨⟨-, -, setup, before, hsockfd, hstart⟩, hbody⟩ := hinit
  have hcarries := runServer_carries homeDir hmode
  obtain ⟨hsame, hend⟩ := hcarries.run (fun h => .refl h)
    (fun hfirst hlater => connectionBlocks_append homeDir _ _ ▸ hfirst.later hlater)
    (fun r => ite_self []) (fun _ _ _ _ _ hstep => runServer_visits hmode hstep) hbody h passes
  refine ⟨hsame, fun t h' hrun => ?_⟩
  obtain ⟨hleft, hheld⟩ := hend t h' hrun
  have hserved : servedVisits r passes = acceptedVisits passes :=
    if_pos (initSocket_open hsockfd hstart)
  rw [hserved] at hheld
  refine ⟨hheld.kept, hheld.card, fun pass hnew => ?_⟩
  exact (pass_mirrors hmode hnew hleft h').ne_error fault_ne_badFree

/-- Two connections ask for a missing file, and the third `accept` fails. -/
theorem server_heap_three : ∃ (t : RunState) (h' : Heap) (passes : List Pass),
    t.handled = [4, 4] ∧ passes.length = 4 ∧
      h'.live.card = connectionBlocks (ascii "./www") (acceptedVisits passes) ∧
      h'.live.card = 8 := by
  let visit : Visit :=
    ⟨.ofSegments [ascii "GET /a HTTP/1.1\r\n\r\n"], [], ⟨fun _ => false, fun _ => none⟩⟩
  let turn : Turn := ⟨.failed, none, 0, fun _ => visit⟩
  let passes : List Pass := [⟨some 4, visit, turn⟩, ⟨some 4, visit, turn⟩, ⟨none, visit, turn⟩,
    ⟨some 4, visit, turn⟩]
  let r : RunState := { sockfd := 3, select := startedIn (ascii "blocking") }
  have hrun : ((runServer (ascii "./www") (ascii "blocking")).run (fun _ _ => True)
      (r, .empty) passes).map (fun (t, h) => (t.handled, h.live.card)) = some ([4, 4], 8) := by
    decide +kernel
  obtain ⟨⟨t, h'⟩, ht, hresult⟩ := Option.map_eq_some_iff.mp hrun
  obtain ⟨hhandled, height⟩ := Prod.mk.inj hresult
  have hinit : (runServer (ascii "./www") (ascii "blocking")).init (r, .empty) :=
    ⟨init_runServer _, rfl⟩
  obtain ⟨-, hcard, -⟩ := (server_heap passes (by decide +kernel) hinit).2 t h' ht
  exact ⟨t, h', passes, hhandled, rfl, hcard.trans (Nat.zero_add _), height⟩

end MinhServer.Allocating
