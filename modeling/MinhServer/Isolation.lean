import MinhServer.Independence
import MinhServer.Readiness

namespace MinhServer
open CString Wire Slots

def Worker.sent (w : Worker) : List Call := w.log.filter Call.isSend

theorem Worker.sent_record {c : Call} (h : c.isSend = false) (w : Worker) :
    (w.record c).sent = w.sent := by
  rw [sent, record, List.filter_append, List.filter_cons_of_neg (by simp [h]), List.filter_nil,
    List.append_nil, sent]

/-- The session of a process that has this one client. -/
def dedicatedSession (homeDir : Bytes) (conn : Int) (visit : Visit) : Except Fault Session :=
  handleOneClientRequest .nonblocking conn homeDir visit.disk visit.peer
    { fds := {conn}, sends := visit.sends }

def dedicatedSends (homeDir : Bytes) (conn : Int) (visit : Visit) : List Call :=
  match dedicatedSession homeDir conn visit with
  | .ok session => session.worker.sent
  | .error _ => []

/-- Both sessions fail alike, or went alike and left workers that are alike. -/
inductive SameSession (conn : Int) (w₀ v₀ : Worker) :
    Except Fault Session → Except Fault Session → Prop where
  | fault (f : Fault) : SameSession conn w₀ v₀ (.error f) (.error f)
  | ok {peer w v served} (alike : Alike conn w₀ v₀ w v) :
      SameSession conn w₀ v₀ (.ok ⟨peer, w, served⟩) (.ok ⟨peer, v, served⟩)

section Sessions
variable {mode : Mode} {conn : Int} {homeDir : Bytes} {disk : Disk} {p p' : Peer Byte}
  {w₀ v₀ w v : Worker} {y : Except Fault Session}

theorem SameSession.eq_error {fault : Fault} (h : SameSession conn w₀ v₀ (.error fault) y) :
    y = .error fault := by
  cases h with
  | fault => rfl

theorem SameSession.isOk {session : Session} (h : SameSession conn w₀ v₀ (.ok session) y) :
    y.isOk = true := by
  cases h with
  | ok => rfl

theorem Alike.receive_eq (h : Alike conn w₀ v₀ w v) (mode : Mode) (p : Peer Byte) :
    receive mode conn p v = receive mode conn p w := by
  unfold receive
  exact if_congr h.fds.symm rfl rfl

theorem Alike.lastRound (h : Alike conn w₀ v₀ w v) (hlast : LastRound mode conn p w p') :
    LastRound mode conn p v p' := by
  rw [LastRound, h.receive_eq]
  exact hlast

/-- The rounds of a session depend on the other descriptors of the process as little as the
answers do. -/
theorem Alike.serveRequests (h : Alike conn w₀ v₀ w v) (served : List HttpRequest) :
    SameSession conn w₀ v₀ (serveRequests mode conn homeDir disk p w served)
      (serveRequests mode conn homeDir disk p v served) := by
  induction p, w using loop_induction mode conn generalizing v served with
  | last p w p' hlast =>
    rw [serveRequests_last hlast, serveRequests_last (h.lastRound hlast)]
    exact .ok (h.record rfl).close
  | http p w r p' hr ht htype ih =>
    have hr' := (h.receive_eq mode p).trans hr
    have hrecv : Alike conn w₀ v₀ (w.record (.recv conn)) (v.record (.recv conn)) := h.record rfl
    have hanswer : SameAnswer conn w₀ v₀
        (handleHttpRequest conn .zeroed r.memory homeDir disk (w.record (.recv conn)))
        (handleHttpRequest conn .zeroed r.memory homeDir disk (v.record (.recv conn))) :=
      hrecv.httpRequest (open_of_receive hr) r.memory
    rw [serveRequests_http hr ht htype, serveRequests_http hr' ht htype]
    revert hanswer
    generalize handleHttpRequest conn .zeroed r.memory homeDir disk (w.record (.recv conn)) = x
    generalize handleHttpRequest conn .zeroed r.memory homeDir disk (v.record (.recv conn)) = y
    intro hanswer
    cases hanswer with
    | fault f => exact .fault f
    | ok alike =>
      simp only [Bind.bind, Except.bind]
      split
      · exact .ok alike.close
      · exact ih _ (alike.record rfl) _
  | other p w r p' hr ht htype ih =>
    have hr' := (h.receive_eq mode p).trans hr
    rw [serveRequests_other hr ht htype, serveRequests_other hr' ht htype]
    exact ih _ ((h.record rfl).record rfl) _

theorem sameSession_dedicated (homeDir : Bytes) (visit : Visit) (hopen : conn ∈ w.fds) :
    SameSession conn { w with sends := visit.sends } { fds := {conn}, sends := visit.sends }
      (handleOneClientRequest .nonblocking conn homeDir visit.disk visit.peer
        { w with sends := visit.sends })
      (dedicatedSession homeDir conn visit) := by
  have hstart : Alike conn { w with sends := visit.sends }
      { fds := {conn}, sends := visit.sends } _ _ :=
    .start rfl hopen (Finset.mem_singleton_self conn)
  exact (hstart.record rfl).serveRequests []

theorem Alike.sent_eq (h : Alike conn w₀ v₀ w v) (hfresh : v₀.log = []) :
    w.sent = w₀.sent ++ v.sent := by
  obtain ⟨calls, calls', hlog, hlog', hsent⟩ := h.log
  rw [hfresh, List.nil_append] at hlog'
  rw [Worker.sent, Worker.sent, Worker.sent, hlog, hlog', List.filter_append, hsent]

end Sessions

section Clients
variable {s t : SelectState} {homeDir : Bytes} {turn : Turn} {visit : Visit}
  {i : Fin maxClients} {fd : Int}

theorem InOrder.client_open (h : InOrder s) (hi : 0 ≤ s.server.fd i) :
    s.server.fd i ∈ s.worker.fds := h.books.clients_open (held_of_used hi)

theorem InOrder.serveClient_sent (h : InOrder s) (hi : 0 ≤ s.server.fd i)
    (hserve : serveClient homeDir visit s i = .ok t) :
    t.worker.sent = s.worker.sent ++ dedicatedSends homeDir (s.server.fd i) visit := by
  rw [serveClient_eq] at hserve
  obtain ⟨session, hsession, hserve⟩ := bind_eq_ok.mp hserve
  have hsame := sameSession_dedicated homeDir visit (h.client_open hi)
  obtain ⟨m, -, rfl⟩ := removeClient_spec (s := (s.notify _).withWorker session.worker) hi hserve
  rw [hsession] at hsame
  have hsent : session.worker.sent =
      s.worker.sent ++ dedicatedSends homeDir (s.server.fd i) visit := by
    unfold dedicatedSends
    revert hsame
    generalize dedicatedSession homeDir (s.server.fd i) visit = x
    intro hsame
    cases hsame with
    | ok alike => exact alike.sent_eq rfl
  rw [← hsent]
  exact Worker.sent_record rfl _

end Clients

/-- The clients that a call serves, each with what it does meanwhile. -/
def SelectState.visits (s : SelectState) (turn : Turn) : List (Int × Visit) :=
  match turn.select with
  | .ready fds => ((List.finRange maxClients).filter fun i => Reported s fds i).map
      fun i => (s.server.fd i, turn.visit i)
  | .failed | .timeout => []

section Calls
variable {s t u : SelectState} {homeDir : Bytes} {turn : Turn} {fds : Finset Int}
  {i : Fin maxClients}

def ServerState.roundSends (homeDir : Bytes) (turn : Turn) (server : ServerState)
    (i : Fin maxClients) : List Call :=
  if server.IsReady i then dedicatedSends homeDir (server.fd i) (turn.visit i) else []

theorem InOrder.serveIfReady_sent (h : InOrder s)
    (hserve : MinhServer.serveIfReady homeDir turn s i = .ok t) :
    t.worker.sent = s.worker.sent ++ s.server.roundSends homeDir turn i := by
  rw [h.serveIfReady_eq] at hserve
  unfold ServerState.roundSends
  split at hserve
  · next hready =>
    have hi : s.server.IsReady i := hready
    rw [if_pos hi]
    exact h.serveClient_sent hready.1.le hserve
  · next hready =>
    have hi : ¬ s.server.IsReady i := hready
    rw [if_neg hi]
    cases hserve
    exact (List.append_nil _).symm

theorem InOrder.serveAll_sent (hu : InOrder u)
    (h : (List.finRange maxClients).foldlM (MinhServer.serveIfReady homeDir turn) u = .ok t) :
    t.worker.sent = u.worker.sent ++
      (List.finRange maxClients).flatMap (u.server.roundSends homeDir turn) := by
  let ready (client : ClientInfo) : Prop := 0 < client.fd ∧ client.fd ∈ u.server.readFds.fds
  let entry (_ : Fin maxClients) (client : ClientInfo) : ClientInfo :=
    if ready client then { client with fd := -1 } else client
  let notes (i : Fin maxClients) (client : ClientInfo) : List Call :=
    if ready client then dedicatedSends homeDir client.fd (turn.visit i) else []
  have hstep : ∀ v i w, InOrder v ∧ v.server.readFds = u.server.readFds →
      MinhServer.serveIfReady homeDir turn v i = .ok w →
      (InOrder w ∧ w.server.readFds = u.server.readFds) ∧
        w.server.clients = Function.update v.server.clients i (entry i (v.server.clients i)) ∧
        w.worker.sent = v.worker.sent ++ notes i (v.server.clients i) := by
    rintro v i w ⟨hv, hreadFds⟩ hserve
    obtain ⟨hclients, ⟨hsame, -⟩, -⟩ := serveIfReady_spec hserve
    have hsent := hv.serveIfReady_sent hserve
    simp only [ServerState.afterRound, ServerState.IsReady, hreadFds] at hclients
    simp only [ServerState.roundSends, ServerState.IsReady, hreadFds] at hsent
    exact ⟨⟨hv.serveIfReady hserve, hsame.trans hreadFds⟩, hclients, hsent⟩
  exact (rewrite_each _ (fun v : SelectState => v.server.clients) entry
    (fun v : SelectState => v.worker.sent) notes hstep (List.nodup_finRange _) ⟨hu, rfl⟩ h).2.2

theorem acceptNewClient_sent (h : acceptNewClient turn s = .ok t) :
    t.worker.sent = s.worker.sent := by
  unfold acceptNewClient at h
  obtain ⟨ready, -, h⟩ := bind_eq_ok.mp h
  split at h
  · split at h
    · cases h
      rfl
    · next fd _ =>
      obtain ⟨⟨index, v⟩, hadd, h⟩ := bind_eq_ok.mp h
      cases h
      rcases addClient_cases hadd with ⟨-, ⟨-, rfl⟩ | ⟨-, -, rfl⟩⟩ | ⟨i, m, -, -, -, -, rfl⟩
      · exact Worker.sent_record rfl _
      · exact Worker.sent_record rfl _
      · exact Worker.sent_record rfl _
  · cases h
    rfl

theorem removeClient_sent {clientIndex : Int} (h : removeClientFromSelect clientIndex s = .ok t) :
    t.worker.sent = s.worker.sent := by
  rcases removeClient_cases h with ⟨rfl, -⟩ | ⟨i, rfl, hi⟩
  · rfl
  · obtain ⟨m, -, rfl⟩ := removeClient_spec hi h
    exact Worker.sent_record rfl _

theorem checkIdle_sent {now : Int} (h : checkIdleConnections now s = .ok t) :
    t.worker.sent = s.worker.sent := by
  refine Ensures.of_foldlM (I := fun v : SelectState => v.worker.sent = s.worker.sent) ?_ rfl h
  intro v i w hv hcheck
  unfold checkIdleClient at hcheck
  split at hcheck
  · exact (removeClient_sent hcheck).trans hv
  · cases hcheck
    exact hv

theorem flatMap_ite_filter {α β : Type} (p : α → Prop) [DecidablePred p] (f : α → List β)
    (l : List α) : (l.filter p).flatMap f = l.flatMap fun a => if p a then f a else [] := by
  induction l with
  | nil => rfl
  | cons a l ih =>
    rw [List.flatMap_cons, ← ih]
    by_cases ha : p a
    · simp only [List.filter_cons, ha, decide_true, if_true, List.flatMap_cons]
    · simp only [List.filter_cons, ha, decide_false, Bool.false_eq_true, if_false, List.nil_append]

theorem mem_visits (hselect : turn.select = .ready fds) {v : Int × Visit} :
    v ∈ s.visits turn ↔ ∃ i, Reported s fds i ∧ (s.server.fd i, turn.visit i) = v := by
  simp [SelectState.visits, hselect]

theorem servingFails_iff {fault : Fault} : ServingFails homeDir turn s fault ↔
    ∃ v ∈ s.visits turn, dedicatedSession homeDir v.1 v.2 = .error fault := by
  constructor
  · rintro ⟨fds, i, w, hselect, hi, hopen, hfails⟩
    refine ⟨_, (mem_visits hselect).mpr ⟨i, hi, rfl⟩, ?_⟩
    have hsame := sameSession_dedicated homeDir (turn.visit i) hopen
    rw [Visit.session] at hfails
    rw [hfails] at hsame
    exact hsame.eq_error
  · rintro ⟨v, hv, hfails⟩
    cases hselect : turn.select with
    | ready fds =>
      obtain ⟨i, hi, rfl⟩ := (mem_visits hselect).mp hv
      have hown : s.server.fd i ∈ ({ fds := {s.server.fd i} } : Worker).fds :=
        Finset.mem_singleton_self _
      exact ⟨fds, i, _, hselect, hi, hown, hfails⟩
    | failed | timeout =>
      rw [SelectState.visits, hselect] at hv
      cases hv

theorem visits_sends (hselect : turn.select = .ready fds) :
    (s.visits turn).flatMap (fun v => dedicatedSends homeDir v.1 v.2) =
      (List.finRange maxClients).flatMap fun i =>
        if Reported s fds i then dedicatedSends homeDir (s.server.fd i) (turn.visit i) else [] := by
  unfold SelectState.visits
  rw [hselect]
  dsimp only
  rw [List.flatMap_map, flatMap_ite_filter]

/-- The sends of a call. -/
theorem InOrder.call_sent (hs : InOrder s) (hfresh : turn.AcceptsFresh s)
    (h : MinhServer.handleSelectEvents homeDir turn s = .ok t) : t.worker.sent =
      s.worker.sent ++ (s.visits turn).flatMap fun v => dedicatedSends homeDir v.1 v.2 := by
  cases hselect : turn.select with
  | ready fds =>
    have hready : InOrder (s.selected fds) := hs.withReadFds _
    rw [hs.ready_eq hselect] at h
    obtain ⟨u, haccept, hserve⟩ := bind_eq_ok.mp h
    have hu := acceptNewClient_accepts haccept
    have hrounds : u.server.roundSends homeDir turn = fun i =>
        if Reported s fds i then dedicatedSends homeDir (s.server.fd i) (turn.visit i) else [] := by
      funext i
      refine ite_congr (propext (hs.isReady_iff hfresh hu)) (fun hreported => ?_) fun _ => rfl
      rw [hu.fd_of_reported hreported]
    rw [(hready.acceptNew hfresh haccept).serveAll_sent hserve, acceptNewClient_sent haccept,
      visits_sends hselect, hrounds]
    rfl
  | failed =>
    have hnone : s.visits turn = [] := by
      unfold SelectState.visits
      rw [hselect]
    simp only [MinhServer.handleSelectEvents, hs.purge_watched, Bind.bind, Except.bind,
      hselect] at h
    cases h
    rw [hnone, List.flatMap_nil, List.append_nil]
    rfl
  | timeout =>
    have hnone : s.visits turn = [] := by
      unfold SelectState.visits
      rw [hselect]
    simp only [MinhServer.handleSelectEvents, hs.purge_watched, Bind.bind, Except.bind,
      hselect] at h
    rw [hnone, List.flatMap_nil, List.append_nil]
    exact (checkIdle_sent h).trans rfl

end Calls

/-- The clients that a run serves, in the order in which they are served. -/
def runVisits (homeDir : Bytes) (s : SelectState) : List Turn → List (Int × Visit)
  | [] => []
  | turn :: turns =>
    s.visits turn ++
      match (selectLoop homeDir).step s turn with
      | some t => runVisits homeDir t turns
      | none => []

/-- Along every run of the select loop the sends are those of one process for each client that was
served, one after the other: no client is sent a byte because of another one. -/
theorem clients_isolated {homeDir : Bytes} {s t : SelectState} {turns : List Turn}
    (h : (selectLoop homeDir).Reachable s)
    (hrun : (selectLoop homeDir).run (fun _ _ => True) s turns = some t) :
    t.worker.sent = s.worker.sent ++
      (runVisits homeDir s turns).flatMap fun v => dedicatedSends homeDir v.1 v.2 := by
  induction turns generalizing s with
  | nil =>
    obtain rfl : s = t := by simpa [Machine.run] using hrun
    exact (List.append_nil _).symm
  | cons turn turns ih =>
    rw [Machine.run, if_pos trivial] at hrun
    obtain ⟨u, hstep, hrun⟩ := Option.bind_eq_some_iff.mp hrun
    obtain ⟨hfresh, hcall⟩ := selectLoop_step hstep
    have hs : InOrder s := (inOrder_invariant homeDir).holds h
    rw [ih (.step h trivial hstep) hrun, hs.call_sent hfresh hcall, runVisits, hstep,
      List.flatMap_append, List.append_assoc]

/-- A client connects and is answered while a second one connects. -/
theorem clients_isolated_two : ∃ (s t : SelectState) (turns : List Turn),
    t.events = [.connected 0 4, .connected 1 5, .served 0 4, .disconnected 0 4] ∧
      t.worker.sent.length = 2 ∧ t.worker.sent = s.worker.sent ++
        (runVisits (ascii "./www") s turns).flatMap
          fun v => dedicatedSends (ascii "./www") v.1 v.2 := by
  let visit : Visit :=
    ⟨.ofSegments [ascii "OPTIONS /a HTTP/1.1\r\n\r\n"], [], ⟨fun _ => false, fun _ => none⟩⟩
  have hrun : ((selectLoop (ascii "./www")).run (fun _ _ => True) (startedIn (ascii "select"))
      (twoClients visit)).map (fun t => (t.events, t.worker.sent.length)) =
        some ([.connected 0 4, .connected 1 5, .served 0 4, .disconnected 0 4], 2) := by
    decide +kernel
  obtain ⟨t, ht, hresult⟩ := Option.map_eq_some_iff.mp hrun
  obtain ⟨hevents, hsent⟩ := Prod.mk.inj hresult
  exact ⟨_, t, _, hevents, hsent, clients_isolated (.init (init_started _)) ht⟩

/-- A call returns exactly if the processes of the reported clients would, as long as the accepted
descriptor has a bit in the sets. -/
theorem call_returns_iff {homeDir : Bytes} {s : SelectState} {turn : Turn} {fds : Finset Int}
    (h : (selectLoop homeDir).Reachable s) (hfresh : turn.AcceptsFresh s)
    (hselect : turn.select = .ready fds) (hbit : ¬ turn.AcceptsBeyond) :
    (∃ t, handleSelectEvents homeDir turn s = .ok t) ↔
      ∀ v ∈ s.visits turn, (dedicatedSession homeDir v.1 v.2).isOk = true := by
  have hs : InOrder s := (inOrder_invariant homeDir).holds h
  constructor
  · rintro ⟨t, hcall⟩ v hv
    obtain ⟨i, hi, rfl⟩ := (mem_visits hselect).mp hv
    obtain ⟨w, session, -, hopen, hok, -⟩ :=
      (hs.servesReported hfresh hselect hcall).sessions i hi
    have hsame := sameSession_dedicated homeDir (turn.visit i) hopen
    rw [Visit.session] at hok
    rw [hok] at hsame
    exact hsame.isOk
  · intro hreturns
    cases hcall : handleSelectEvents homeDir turn s with
    | ok t => exact ⟨t, rfl⟩
    | error fault =>
      rcases hs.call_error hfresh hselect hcall with hserving | ⟨-, hbeyond⟩
      · obtain ⟨v, hv, hfails⟩ := servingFails_iff.mp hserving
        have hok := hreturns v hv
        rw [hfails] at hok
        cases hok
      · exact absurd hbeyond hbit

/-- A client whose request stops its own process stops the call for all. -/
theorem call_returns_iff_no_slash : ∃ (s : SelectState) (turn : Turn),
    (s.visits turn).map (·.1) = [4] ∧
      ((∃ t, handleSelectEvents (ascii "./www") turn s = .ok t) ↔
        ∀ v ∈ s.visits turn, (dedicatedSession (ascii "./www") v.1 v.2).isOk = true) := by
  let visit : Visit :=
    ⟨.ofSegments [ascii "GET a HTTP/1.1\r\n\r\n"], [], ⟨fun _ => false, fun _ => none⟩⟩
  let turn : Turn := ⟨.ready {3, 4}, some 5, 101, fun _ => visit⟩
  have hrun : ((selectLoop (ascii "./www")).run (fun _ _ => True) (startedIn (ascii "select"))
      ((twoClients visit).take 1)).map
        (fun s => ((s.visits turn).map (·.1), decide (turn.AcceptsFresh s))) = some ([4], true) := by
    decide +kernel
  obtain ⟨s, hs, hresult⟩ := Option.map_eq_some_iff.mp hrun
  obtain ⟨hvisits, hfresh⟩ := Prod.mk.inj hresult
  have hreach : (selectLoop (ascii "./www")).Reachable s :=
    Machine.ReachableBy.run (.init (init_started _)) hs
  have hbit : ¬ turn.AcceptsBeyond := by
    rintro ⟨fd, hfd, hbeyond⟩
    cases hfd
    exact absurd hbeyond (by decide)
  exact ⟨s, turn, hvisits, call_returns_iff hreach (of_decide_eq_true hfresh) rfl hbit⟩

end MinhServer
