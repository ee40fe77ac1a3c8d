import MinhServer.Bookkeeping

namespace MinhServer
open CString Slots

section Calls
variable {s t u : SelectState} {turn : Turn} {i : Fin maxClients}

theorem purgeMasterFds_spec {is : List Nat} (h : purgeMasterFds is s = .ok t) :
    t.server.clients = s.server.clients ∧ t.server.listenFd = s.server.listenFd ∧
      t.worker = s.worker := by
  induction is generalizing s with
  | nil =>
    cases h
    exact ⟨rfl, rfl, rfl⟩
  | cons i is ih =>
    rw [purgeMasterFds] at h
    obtain ⟨member, -, h⟩ := bind_eq_ok.mp h
    split at h
    · obtain ⟨masterFds, -, h⟩ := bind_eq_ok.mp h
      have hrest := ih h
      exact hrest
    · exact ih h

/-- What an accepted connection changes: nothing, or a free slot is filled. -/
inductive Accepts (turn : Turn) (s t : SelectState) : Prop where
  | none (server : t.server = s.server)
      (events : t.events = s.events ∨ ∃ fd, turn.accept = some fd ∧
        (t.events = s.events ++ [.limitReached fd] ∨ t.events = s.events ++ [.noFreeSlot fd]))
  | client (i : Fin maxClients) (fd : Int) (accept : turn.accept = some fd)
      (listening : s.server.listenFd ∈ s.server.readFds.fds) (free : s.server.fd i < 0)
      (clients : t.server.clients = Function.update s.server.clients i ⟨fd, turn.now⟩)
      (readFds : t.server.readFds = s.server.readFds)
      (listenFd : t.server.listenFd = s.server.listenFd)
      (events : t.events = s.events ++ [.connected i fd])

theorem acceptNewClient_accepts (h : acceptNewClient turn s = .ok t) : Accepts turn s t := by
  unfold acceptNewClient at h
  obtain ⟨ready, hready, h⟩ := bind_eq_ok.mp h
  split at h
  · next hset =>
    have hlisten : s.server.listenFd ∈ s.server.readFds.fds := by
      unfold FdSet.isSet at hready
      split at hready
      · rw [Except.ok.injEq] at hready
        rw [← hready] at hset
        exact of_decide_eq_true hset
      · cases hready
    split at h
    · cases h
      exact .none rfl (.inl rfl)
    · next fd hfd =>
      obtain ⟨⟨index, v⟩, hadd, h⟩ := bind_eq_ok.mp h
      cases h
      rcases addClient_cases hadd with ⟨-, ⟨-, rfl⟩ | ⟨-, -, rfl⟩⟩ | ⟨i, m, -, -, hi, -, rfl⟩
      · exact .none rfl (.inr ⟨fd, hfd, .inl rfl⟩)
      · exact .none rfl (.inr ⟨fd, hfd, .inr rfl⟩)
      · exact .client i fd hfd hlisten (fd_of_freeSlot hi) rfl rfl rfl rfl
  · cases h
    exact .none rfl (.inl rfl)

/-- The slot holds a client, and `select` reported its descriptor. -/
def ServerState.IsReady (server : ServerState) (i : Fin maxClients) : Prop :=
  0 < server.fd i ∧ server.fd i ∈ server.readFds.fds

instance (server : ServerState) (i : Fin maxClients) : Decidable (server.IsReady i) :=
  inferInstanceAs (Decidable (_ ∧ _))

def ServerState.afterRound (server : ServerState) (i : Fin maxClients) : ClientInfo :=
  if server.IsReady i then { server.clients i with fd := -1 } else server.clients i

def ServerState.roundEvents (server : ServerState) (i : Fin maxClients) : List Event :=
  if server.IsReady i then [.served i (server.fd i), .disconnected i (server.fd i)] else []

theorem serveClient_spec {homeDir : Bytes} {visit : Visit} (hi : 0 ≤ s.server.fd i)
    (h : serveClient homeDir visit s i = .ok t) :
    t.server.clients = Function.update s.server.clients i { s.server.clients i with fd := -1 } ∧
      (t.server.readFds = s.server.readFds ∧ t.server.listenFd = s.server.listenFd) ∧
      t.events = s.events ++ [.served i (s.server.fd i), .disconnected i (s.server.fd i)] := by
  rw [serveClient_eq] at h
  obtain ⟨session, -, h⟩ := bind_eq_ok.mp h
  obtain ⟨m, -, rfl⟩ := removeClient_spec (s := (s.notify _).withWorker session.worker) hi h
  exact ⟨rfl, ⟨rfl, rfl⟩, List.append_assoc _ _ _⟩

theorem serveIfReady_spec {homeDir : Bytes} (h : serveIfReady homeDir turn s i = .ok t) :
    t.server.clients = Function.update s.server.clients i (s.server.afterRound i) ∧
      (t.server.readFds = s.server.readFds ∧ t.server.listenFd = s.server.listenFd) ∧
      t.events = s.events ++ s.server.roundEvents i := by
  -- a slot that is not ready is left alone
  have hidle : ¬ s.server.IsReady i → s = t →
      t.server.clients = Function.update s.server.clients i (s.server.afterRound i) ∧
        (t.server.readFds = s.server.readFds ∧ t.server.listenFd = s.server.listenFd) ∧
        t.events = s.events ++ s.server.roundEvents i := by
    rintro hnot rfl
    rw [ServerState.afterRound, ServerState.roundEvents, if_neg hnot, if_neg hnot,
      Function.update_eq_self, List.append_nil]
    exact ⟨rfl, ⟨rfl, rfl⟩, rfl⟩
  unfold serveIfReady at h
  split at h
  · next hpos =>
    obtain ⟨ready, hready, h⟩ := bind_eq_ok.mp h
    unfold FdSet.isSet at hready
    split at hready
    · rw [Except.ok.injEq] at hready
      subst hready
      split at h
      · next hset =>
        have hreported : s.server.IsReady i := ⟨hpos, of_decide_eq_true hset⟩
        rw [ServerState.afterRound, ServerState.roundEvents, if_pos hreported, if_pos hreported]
        exact serveClient_spec hpos.le h
      · next hset =>
        exact hidle (fun hreported => hset (decide_eq_true hreported.2)) (Except.ok.inj h)
    · cases hready
  · next hpos => exact hidle (fun hreported => hpos hreported.1) (Except.ok.inj h)

theorem serveAll_spec {homeDir : Bytes}
    (h : (List.finRange maxClients).foldlM (serveIfReady homeDir turn) u = .ok t) :
    (∀ i, t.server.clients i = u.server.afterRound i) ∧ t.server.listenFd = u.server.listenFd ∧
      t.events = u.events ++ (List.finRange maxClients).flatMap u.server.roundEvents := by
  let ready (client : ClientInfo) : Prop := 0 < client.fd ∧ client.fd ∈ u.server.readFds.fds
  let entry (_ : Fin maxClients) (client : ClientInfo) : ClientInfo :=
    if ready client then { client with fd := -1 } else client
  let notes (i : Fin maxClients) (client : ClientInfo) : List Event :=
    if ready client then [.served i client.fd, .disconnected i client.fd] else []
  have hstep : ∀ v i w,
      v.server.readFds = u.server.readFds ∧ v.server.listenFd = u.server.listenFd →
      serveIfReady homeDir turn v i = .ok w →
      (w.server.readFds = u.server.readFds ∧ w.server.listenFd = u.server.listenFd) ∧
        w.server.clients =
          Function.update v.server.clients i (entry i (v.server.clients i)) ∧
        w.events = v.events ++ notes i (v.server.clients i) := by
    rintro v i w ⟨hreadFds, hlistenFd⟩ hserve
    obtain ⟨hclients, ⟨hreadFds', hlistenFd'⟩, hevents⟩ := serveIfReady_spec hserve
    simp only [ServerState.afterRound, ServerState.IsReady, hreadFds] at hclients
    simp only [ServerState.roundEvents, ServerState.IsReady, hreadFds] at hevents
    exact ⟨⟨hreadFds'.trans hreadFds, hlistenFd'.trans hlistenFd⟩, hclients, hevents⟩
  obtain ⟨⟨-, hlisten⟩, hclients, hevents⟩ :=
    rewrite_each _ (fun v : SelectState => v.server.clients) entry SelectState.events notes hstep
      (List.nodup_finRange _) ⟨rfl, rfl⟩ h
  refine ⟨fun i => ?_, hlisten, hevents⟩
  exact (hclients i).trans (if_pos (List.mem_finRange i))

/-- After `select`: the descriptors of `read_fds` that are ready. -/
def SelectState.selected (s : SelectState) (fds : Finset Int) : SelectState :=
  s.withServer { s.server with readFds := s.server.masterFds.keep fds }

theorem InOrder.ready_eq (h : InOrder s) {homeDir : Bytes} {fds : Finset Int}
    (hfds : turn.select = .ready fds) :
    MinhServer.handleSelectEvents homeDir turn s = (acceptNewClient turn (s.selected fds)).bind
      fun t => (List.finRange maxClients).foldlM (MinhServer.serveIfReady homeDir turn) t := by
  unfold MinhServer.handleSelectEvents
  rw [h.purge_watched]
  simp only [Bind.bind, Except.bind, hfds]
  rfl

theorem handleSelectEvents_ready {homeDir : Bytes} {fds : Finset Int}
    (hselect : turn.select = .ready fds) (h : handleSelectEvents homeDir turn s = .ok t) :
    ∃ v u, purgeMasterFds s.server.watched s = .ok v ∧
      acceptNewClient turn (v.selected fds) = .ok u ∧
      (List.finRange maxClients).foldlM (serveIfReady homeDir turn) u = .ok t := by
  unfold handleSelectEvents at h
  obtain ⟨v, hv, h⟩ := bind_eq_ok.mp h
  rw [hselect] at h
  obtain ⟨u, hu, h⟩ := bind_eq_ok.mp h
  exact ⟨v, u, hv, hu, h⟩

/-- The session of the client with the descriptor `fd`. -/
def Visit.session (visit : Visit) (homeDir : Bytes) (fd : Int) (w : Worker) :
    Except Fault Session :=
  handleOneClientRequest .nonblocking fd homeDir visit.disk visit.peer
    { w with sends := visit.sends }

theorem serveIfReady_other {homeDir : Bytes} {j : Fin maxClients}
    (h : serveIfReady homeDir turn s j = .ok t) (hij : i ≠ j) :
    t.server.fd i = s.server.fd i ∧ (t.server.IsReady i ↔ s.server.IsReady i) := by
  obtain ⟨hclients, ⟨hreadFds, -⟩, -⟩ := serveIfReady_spec h
  have hfd : t.server.fd i = s.server.fd i := by
    rw [ServerState.fd, hclients, Function.update_of_ne hij]
    rfl
  rw [ServerState.IsReady, ServerState.IsReady, hfd, hreadFds]
  exact ⟨rfl, Iff.rfl⟩

theorem InOrder.serveIfReady_session (hs : InOrder s) {homeDir : Bytes}
    (h : MinhServer.serveIfReady homeDir turn s i = .ok t) :
    s.worker.log <+: t.worker.log ∧ (s.server.IsReady i → ∃ session,
      (turn.visit i).session homeDir (s.server.fd i) s.worker = .ok session ∧
        session.worker.log <+: t.worker.log) := by
  rw [hs.serveIfReady_eq] at h
  split at h
  · next hready =>
    rw [serveClient_eq] at h
    obtain ⟨session, hsession, h⟩ := bind_eq_ok.mp h
    obtain ⟨m, -, rfl⟩ := removeClient_spec (s := (s.notify _).withWorker session.worker)
      hready.1.le h
    have hlog : s.worker.log <+: session.worker.log :=
      (List.prefix_append _ _).trans (serveRequests_closesOnly hsession).2.log
    have hclose : session.worker.log <+: session.worker.log ++ [.close (s.server.fd i)] :=
      List.prefix_append _ _
    exact ⟨hlog.trans hclose, fun _ => ⟨session, hsession, hclose⟩⟩
  · next hidle =>
    cases h
    exact ⟨List.prefix_rfl, fun hready => absurd hready hidle⟩

theorem InOrder.serveAll_sessions (hu : InOrder u) {homeDir : Bytes} {l : List (Fin maxClients)}
    (hl : l.Nodup) (h : l.foldlM (MinhServer.serveIfReady homeDir turn) u = .ok t) :
    u.worker.log <+: t.worker.log ∧ ∀ i ∈ l, u.server.IsReady i → ∃ w session,
      u.worker.log <+: w.log ∧ u.server.fd i ∈ w.fds ∧
        (turn.visit i).session homeDir (u.server.fd i) w = .ok session ∧
        session.worker.log <+: t.worker.log := by
  induction l generalizing u with
  | nil =>
    cases h
    exact ⟨List.prefix_rfl, fun i hi => absurd hi List.not_mem_nil⟩
  | cons j l ih =>
    obtain ⟨hj, hl⟩ := List.nodup_cons.mp hl
    rw [List.foldlM_cons] at h
    obtain ⟨v, hv, h⟩ := bind_eq_ok.mp h
    obtain ⟨hlog, hsession⟩ := hu.serveIfReady_session hv
    obtain ⟨hrest, hsessions⟩ := ih (hu.serveIfReady hv) hl h
    refine ⟨hlog.trans hrest, fun i hi hready => ?_⟩
    rcases List.mem_cons.mp hi with rfl | hi
    · obtain ⟨session, hok, hafter⟩ := hsession hready
      have hopen := hu.books.clients_open (held_of_used hready.1.le)
      exact ⟨u.worker, session, List.prefix_rfl, hopen, hok, hafter.trans hrest⟩
    · obtain ⟨hfd, hiff⟩ := serveIfReady_other hv (ne_of_mem_of_not_mem hi hj)
      obtain ⟨w, session, hbefore, hopen, hok, hafter⟩ := hsessions i hi (hiff.mpr hready)
      rw [hfd] at hopen hok
      exact ⟨w, session, hlog.trans hbefore, hopen, hok, hafter⟩

theorem InOrder.serveIfReady_error (h : InOrder s) {homeDir : Bytes} {fault : Fault}
    (herror : MinhServer.serveIfReady homeDir turn s i = .error fault) :
    s.server.IsReady i ∧
      (turn.visit i).session homeDir (s.server.fd i) s.worker = .error fault := by
  rw [h.serveIfReady_eq] at herror
  split at herror
  · next hready =>
    have hrange := h.fd_inRange hready.1.le
    rw [serveClient_eq] at herror
    cases hsession : handleOneClientRequest .nonblocking (s.server.fd i) homeDir
        (turn.visit i).disk (turn.visit i).peer
        { s.worker with sends := (turn.visit i).sends } with
    | error fault' =>
      rw [hsession] at herror
      cases herror
      exact ⟨hready, hsession⟩
    | ok session =>
      rw [hsession] at herror
      obtain ⟨t, ht⟩ := exists_removed
        (s := (s.notify (.served i (s.server.fd i))).withWorker session.worker) hrange.1 hrange.2
      cases ht.symm.trans herror
  · cases herror

theorem InOrder.serveAll_error (hu : InOrder u) {homeDir : Bytes} {l : List (Fin maxClients)}
    (hl : l.Nodup) {fault : Fault}
    (h : l.foldlM (MinhServer.serveIfReady homeDir turn) u = .error fault) :
    ∃ i ∈ l, u.server.IsReady i ∧ ∃ w : Worker, u.server.fd i ∈ w.fds ∧
      (turn.visit i).session homeDir (u.server.fd i) w = .error fault := by
  induction l generalizing u with
  | nil => cases h
  | cons j l ih =>
    obtain ⟨hj, hl⟩ := List.nodup_cons.mp hl
    rw [List.foldlM_cons] at h
    cases hv : MinhServer.serveIfReady homeDir turn u j with
    | error fault' =>
      rw [hv] at h
      cases h
      obtain ⟨hready, hfails⟩ := hu.serveIfReady_error hv
      have hopen := hu.books.clients_open (held_of_used hready.1.le)
      exact ⟨j, List.mem_cons_self, hready, u.worker, hopen, hfails⟩
    | ok v =>
      rw [hv] at h
      obtain ⟨i, hi, hready, w, hopen, hfails⟩ := ih (hu.serveIfReady hv) hl h
      obtain ⟨hfd, hiff⟩ := serveIfReady_other hv (ne_of_mem_of_not_mem hi hj)
      rw [hfd] at hopen hfails
      exact ⟨i, List.mem_cons_of_mem j hi, hiff.mp hready, w, hopen, hfails⟩

theorem count_served {server : ServerState} {l : List (Fin maxClients)} (hl : l.Nodup) (fd : Int) :
    (l.flatMap server.roundEvents).count (.served i fd) =
      if i ∈ l ∧ server.IsReady i ∧ server.fd i = fd then 1 else 0 := by
  induction l with
  | nil => simp
  | cons j l ih =>
    obtain ⟨hj, hl⟩ := List.nodup_cons.mp hl
    rw [List.flatMap_cons, List.count_append, ih hl]
    by_cases hji : j = i
    · subst hji
      by_cases hready : server.IsReady j
      · simp [ServerState.roundEvents, hready, hj, List.count_cons]
      · simp [ServerState.roundEvents, hready]
    · have hnone : (server.roundEvents j).count (.served i fd) = 0 := by
        unfold ServerState.roundEvents
        split <;> simp [hji]
      have hmem : i ∈ j :: l ↔ i ∈ l := by
        rw [List.mem_cons]
        exact or_iff_right fun heq => hji heq.symm
      simp only [hnone, Nat.zero_add, hmem]

end Calls

/-- The slot is in use, and `select` reported its descriptor. -/
def Reported (s : SelectState) (fds : Finset Int) (i : Fin maxClients) : Prop :=
  0 ≤ s.server.fd i ∧ s.server.fd i ∈ fds

instance (s : SelectState) (fds : Finset Int) (i : Fin maxClients) : Decidable (Reported s fds i) :=
  inferInstanceAs (Decidable (_ ∧ _))

/-- What the call does with its clients: each one that was reported is served once, by a session
whose calls are among those of the call, and its slot is free and out of `master_fds` afterwards;
no other one is served, not even the one accepted in this call; and every other slot is as it was,
the accepted client's apart. -/
structure ServesReported (homeDir : Bytes) (turn : Turn) (fds : Finset Int) (s t : SelectState) :
    Prop where
  served : ∃ new, t.events = s.events ++ new ∧
    (∀ i fd, new.count (.served i fd) = if Reported s fds i ∧ s.server.fd i = fd then 1 else 0) ∧
    ∀ fd ∈ turn.accept, ∀ i, .served i fd ∉ new
  sessions : ∀ i, Reported s fds i → ∃ w session, s.worker.log <+: w.log ∧
    s.server.fd i ∈ w.fds ∧ (turn.visit i).session homeDir (s.server.fd i) w = .ok session ∧
    session.worker.log <+: t.worker.log
  freed : ∀ i, Reported s fds i → t.server.fd i < 0 ∧ s.server.fd i ∉ t.server.masterFds.fds
  kept : ∃ accepted : Option (Fin maxClients),
    (∀ i ∈ accepted, s.server.fd i < 0 ∧ s.server.listenFd ∈ fds ∧
      ∃ fd, turn.accept = some fd ∧ t.server.clients i = ⟨fd, turn.now⟩) ∧
    ∀ i, ¬ Reported s fds i → i ∉ accepted → t.server.clients i = s.server.clients i

/-- While a client that `select` reported is served, its handler fails. -/
def ServingFails (homeDir : Bytes) (turn : Turn) (s : SelectState) (fault : Fault) : Prop :=
  ∃ (fds : Finset Int) (i : Fin maxClients) (w : Worker), turn.select = .ready fds ∧
    Reported s fds i ∧ s.server.fd i ∈ w.fds ∧
    (turn.visit i).session homeDir (s.server.fd i) w = .error fault

section Ready
variable {s t u : SelectState} {turn : Turn} {fds : Finset Int} {i : Fin maxClients} {fd : Int}

theorem Accepts.clients_eq (h : Accepts turn s u) (i : Fin maxClients) :
    u.server.clients i = s.server.clients i ∨
      s.server.fd i < 0 ∧ ∃ fd, turn.accept = some fd ∧ u.server.clients i = ⟨fd, turn.now⟩ := by
  cases h with
  | none server =>
    rw [server]
    exact .inl rfl
  | client j fd accept _ free clients =>
    by_cases hij : i = j
    · subst hij
      rw [clients, Function.update_self]
      exact .inr ⟨free, fd, accept, rfl⟩
    · rw [clients, Function.update_of_ne hij]
      exact .inl rfl

theorem Accepts.fd_eq (h : Accepts turn s u) : u.server.fd i = s.server.fd i ∨
    s.server.fd i < 0 ∧ turn.accept = some (u.server.fd i) := by
  rcases h.clients_eq i with hsame | ⟨hfree, fd, haccept, hfilled⟩
  · exact .inl (congrArg ClientInfo.fd hsame)
  · refine .inr ⟨hfree, ?_⟩
    rw [ServerState.fd, hfilled]
    exact haccept

theorem Accepts.fd_of_reported (h : Accepts turn (s.selected fds) u) (hi : Reported s fds i) :
    u.server.fd i = s.server.fd i := by
  rcases h.fd_eq (i := i) with hsame | ⟨hfree, -⟩
  · exact hsame
  · exact absurd hi.1 (not_le.mpr hfree)

theorem acceptNewClient_log (h : acceptNewClient turn s = .ok t) :
    s.worker.log <+: t.worker.log := by
  unfold acceptNewClient at h
  obtain ⟨ready, -, h⟩ := bind_eq_ok.mp h
  split at h
  · split at h
    · cases h
      exact List.prefix_rfl
    · next fd _ =>
      obtain ⟨⟨index, v⟩, hadd, h⟩ := bind_eq_ok.mp h
      cases h
      rcases addClient_cases hadd with ⟨-, ⟨-, rfl⟩ | ⟨-, -, rfl⟩⟩ | ⟨i, m, -, -, -, -, rfl⟩
      · exact List.prefix_append _ _
      · exact List.prefix_append _ _
      · exact List.prefix_append _ _
  · cases h
    exact List.prefix_rfl

theorem Accepts.readFds_eq (h : Accepts turn s u) :
    u.server.readFds = s.server.readFds ∧ u.server.listenFd = s.server.listenFd := by
  cases h with
  | none server =>
    rw [server]
    exact ⟨rfl, rfl⟩
  | client _ _ _ _ _ _ readFds listenFd => exact ⟨readFds, listenFd⟩

theorem Accepts.count_served (h : Accepts turn s u) : ∃ before, u.events = s.events ++ before ∧
    ∀ i fd, before.count (.served i fd) = 0 := by
  cases h with
  | none _ events =>
    obtain hsame | ⟨fd, -, hlimit | hslot⟩ := events
    · exact ⟨[], by rw [hsame, List.append_nil], fun _ _ => rfl⟩
    · exact ⟨_, hlimit, fun _ _ => by simp⟩
    · exact ⟨_, hslot, fun _ _ => by simp⟩
  | client _ _ _ _ _ _ _ _ events => exact ⟨_, events, fun _ _ => by simp⟩

/-- After the accepting step the slots that are ready are the ones reported: the new client's
descriptor was not watched by this `select`. -/
theorem InOrder.isReady_iff (h : InOrder s) (hfresh : turn.AcceptsFresh s)
    (hu : Accepts turn (s.selected fds) u) : u.server.IsReady i ↔ Reported s fds i := by
  have hwatched : u.server.readFds.fds = s.server.masterFds.fds ∩ fds := by
    rw [hu.readFds_eq.1]
    rfl
  rw [ServerState.IsReady, Reported, hwatched, Finset.mem_inter]
  rcases hu.fd_eq (i := i) with hsame | ⟨hfree, haccept⟩
  · change u.server.fd i = s.server.fd i at hsame
    rw [hsame]
    constructor
    · exact fun hready => ⟨hready.1.le, hready.2.2⟩
    · rintro ⟨hused, hmem⟩
      refine ⟨h.books.positive i hused, ?_, hmem⟩
      rw [h.books.master]
      exact Finset.mem_insert_of_mem (held_of_used hused)
  · change s.server.fd i < 0 at hfree
    have hnew := (hfresh _ haccept).2
    refine iff_of_false (fun hready => hnew ?_) fun hreported => by
      have := hreported.1
      omega
    have hmaster := hready.2.1
    rw [h.books.master, Finset.mem_insert] at hmaster
    rcases hmaster with heq | hmem
    · exact heq ▸ h.books.listen_open
    · exact h.books.clients_open hmem

/-- A call that reports `fds`, with `u` the state after the accepting step. -/
structure ReadyCall (turn : Turn) (fds : Finset Int) (s u t : SelectState) : Prop where
  accepts : Accepts turn (s.selected fds) u
  ready : ∀ i, u.server.IsReady i ↔ Reported s fds i
  cleared : ∀ i, Reported s fds i → t.server.fd i = -1
  left : ∀ i, ¬ Reported s fds i → t.server.clients i = u.server.clients i
  listenFd : t.server.listenFd = s.server.listenFd
  events : t.events = u.events ++ (List.finRange maxClients).flatMap u.server.roundEvents

theorem InOrder.readyCall (hs : InOrder s) (hfresh : turn.AcceptsFresh s) {homeDir : Bytes}
    (hselect : turn.select = .ready fds)
    (hcall : MinhServer.handleSelectEvents homeDir turn s = .ok t) :
    ∃ u, ReadyCall turn fds s u t := by
  obtain ⟨v, u, hv, haccept, hserve⟩ := handleSelectEvents_ready hselect hcall
  obtain rfl : s = v := Except.ok.inj (hs.purge_watched.symm.trans hv)
  have hu := acceptNewClient_accepts haccept
  have hready : ∀ i, u.server.IsReady i ↔ Reported s fds i := fun i => hs.isReady_iff hfresh hu
  obtain ⟨hclients, hlisten, hevents⟩ := serveAll_spec hserve
  refine ⟨u, hu, hready, fun i hi => ?_, fun i hi => ?_, hlisten.trans hu.readFds_eq.2, hevents⟩
  · rw [ServerState.fd, hclients, ServerState.afterRound, if_pos ((hready i).mpr hi)]
  · rw [hclients, ServerState.afterRound, if_neg (mt (hready i).mp hi)]

theorem InOrder.fd_ne_accepted (hs : InOrder s) (hfresh : turn.AcceptsFresh s)
    (hfd : turn.accept = some fd) (hused : 0 ≤ s.server.fd i) : s.server.fd i ≠ fd := by
  rintro rfl
  exact (hfresh _ hfd).2 (hs.books.clients_open (held_of_used hused))

theorem ReadyCall.served (h : ReadyCall turn fds s u t) (hs : InOrder s)
    (hfresh : turn.AcceptsFresh s) : ∃ new, t.events = s.events ++ new ∧
      (∀ i fd, new.count (.served i fd) =
        if Reported s fds i ∧ s.server.fd i = fd then 1 else 0) ∧
      ∀ fd ∈ turn.accept, ∀ i, .served i fd ∉ new := by
  obtain ⟨before, hbefore, hnone⟩ := h.accepts.count_served
  have hcount : ∀ i fd,
      (before ++ (List.finRange maxClients).flatMap u.server.roundEvents).count (.served i fd) =
        if Reported s fds i ∧ s.server.fd i = fd then 1 else 0 := by
    intro i fd
    rw [List.count_append, hnone, Nat.zero_add, count_served (List.nodup_finRange _)]
    by_cases hreported : Reported s fds i
    · have hfd : u.server.fd i = s.server.fd i := h.accepts.fd_of_reported hreported
      simp only [List.mem_finRange, h.ready, hreported, hfd, true_and]
    · simp only [List.mem_finRange, h.ready, hreported, false_and, and_false]
  refine ⟨_, by rw [h.events, hbefore, List.append_assoc]; rfl, hcount, ?_⟩
  intro fd hfd i hmem
  have hpos := List.count_pos_iff.mpr hmem
  rw [hcount] at hpos
  split at hpos
  · next hserved => exact hs.fd_ne_accepted hfresh hfd hserved.1.1 hserved.2
  · omega

theorem ReadyCall.gone (h : ReadyCall turn fds s u t) (hs : InOrder s)
    (hfresh : turn.AcceptsFresh s) (hi : Reported s fds i) :
    s.server.fd i ∉ t.server.clientFds := by
  intro hmem
  obtain ⟨-, j, hj⟩ := mem_held.mp hmem
  by_cases hserved : Reported s fds j
  · have hused := hi.1
    rw [h.cleared j hserved] at hj
    omega
  · have hkept : u.server.fd j = s.server.fd i := by
      rw [← hj, ServerState.fd, ServerState.fd, h.left j hserved]
    rcases h.accepts.fd_eq (i := j) with hsame | ⟨-, hacc⟩
    · -- the slot held it before the call, so it is the one that was served
      have hfd : s.server.fd j = s.server.fd i := hsame.symm.trans hkept
      have hji : j = i := hs.books.distinct j i (hfd ▸ hi.1) hfd
      exact hserved (hji ▸ hi)
    · exact hs.fd_ne_accepted hfresh hacc hi.1 hkept.symm

theorem ReadyCall.kept (h : ReadyCall turn fds s u t) : ∃ accepted : Option (Fin maxClients),
    (∀ i ∈ accepted, s.server.fd i < 0 ∧ s.server.listenFd ∈ fds ∧
      ∃ fd, turn.accept = some fd ∧ t.server.clients i = ⟨fd, turn.now⟩) ∧
    ∀ i, ¬ Reported s fds i → i ∉ accepted → t.server.clients i = s.server.clients i := by
  cases h.accepts with
  | none server =>
    refine ⟨none, by simp, fun i hnot _ => ?_⟩
    rw [h.left i hnot, server]
    rfl
  | client j fd accept listening free clients =>
    refine ⟨some j, ?_, ?_⟩
    · intro i hi
      obtain rfl := Option.some.inj hi
      have hnot : ¬ Reported s fds j := fun hreported => absurd hreported.1 (not_le.mpr free)
      refine ⟨free, (Finset.mem_inter.mp listening).2, fd, accept, ?_⟩
      rw [h.left j hnot, clients, Function.update_self]
    · intro i hnot hi
      have hne : i ≠ j := fun heq => hi (heq ▸ rfl)
      rw [h.left i hnot, clients, Function.update_of_ne hne]
      rfl

theorem InOrder.call_sessions (hs : InOrder s) (hfresh : turn.AcceptsFresh s) {homeDir : Bytes}
    (hselect : turn.select = .ready fds)
    (hcall : MinhServer.handleSelectEvents homeDir turn s = .ok t) (hi : Reported s fds i) :
    ∃ w session, s.worker.log <+: w.log ∧ s.server.fd i ∈ w.fds ∧
      (turn.visit i).session homeDir (s.server.fd i) w = .ok session ∧
      session.worker.log <+: t.worker.log := by
  have hready : InOrder (s.selected fds) := hs.withReadFds _
  rw [hs.ready_eq hselect] at hcall
  obtain ⟨u, haccept, hserve⟩ := bind_eq_ok.mp hcall
  have hu := acceptNewClient_accepts haccept
  have hlog := acceptNewClient_log haccept
  obtain ⟨-, hsessions⟩ :=
    (hready.acceptNew hfresh haccept).serveAll_sessions (List.nodup_finRange _) hserve
  obtain ⟨w, session, hbefore, hopen, hok, hafter⟩ :=
    hsessions i (List.mem_finRange i) ((hs.isReady_iff hfresh hu).mpr hi)
  rw [hu.fd_of_reported hi] at hopen hok
  exact ⟨w, session, hlog.trans hbefore, hopen, hok, hafter⟩

theorem InOrder.servesReported (hs : InOrder s) (hfresh : turn.AcceptsFresh s) {homeDir : Bytes}
    (hselect : turn.select = .ready fds)
    (hcall : MinhServer.handleSelectEvents homeDir turn s = .ok t) :
    ServesReported homeDir turn fds s t := by
  have ht : InOrder t := hs.handleSelectEvents hfresh hcall
  obtain ⟨u, h⟩ := hs.readyCall hfresh hselect hcall
  refine ⟨h.served hs hfresh, fun i => hs.call_sessions hfresh hselect hcall,
    fun i hi => ⟨by rw [h.cleared i hi]; decide, ?_⟩, h.kept⟩
  rw [ht.books.master, h.listenFd, Finset.mem_insert, not_or]
  refine ⟨fun heq => ?_, h.gone hs hfresh hi⟩
  exact hs.books.clients_ne_listen (heq ▸ held_of_used hi.1)

/-- The accepted descriptor has no bit in the sets. -/
def Turn.AcceptsBeyond (turn : Turn) : Prop := ∃ fd, turn.accept = some fd ∧ fdSetSize ≤ fd

theorem InOrder.acceptNew_error (h : InOrder s) (hfresh : turn.AcceptsFresh s) {fault : Fault}
    (herror : acceptNewClient turn s = .error fault) :
    s.server.listenFd ∈ s.server.readFds.fds ∧ turn.AcceptsBeyond := by
  rw [h.acceptNew_eq] at herror
  split at herror
  · next hready =>
    refine ⟨hready, ?_⟩
    split at herror
    · cases herror
    · next fd hfd =>
      by_contra hinside
      have hpos := (hfresh fd hfd).1
      have hrange : 0 ≤ fd ∧ fd < fdSetSize :=
        ⟨hpos.le, not_le.mp fun hle => hinside ⟨fd, hfd, hle⟩⟩
      have hset : ∃ m, s.server.masterFds.set fd = .ok m := ⟨_, dif_pos hrange⟩
      obtain ⟨m, hm⟩ := hset
      unfold addClientToSelect at herror
      rw [SelectState.open_server, hm] at herror
      split at herror
      · cases herror
      · split at herror <;> cases herror
  · cases herror

theorem InOrder.ready_of_error (hs : InOrder s) {homeDir : Bytes} {fault : Fault}
    (herror : MinhServer.handleSelectEvents homeDir turn s = .error fault) :
    ∃ fds, turn.select = .ready fds := by
  have hidle : ∀ v i, InOrder v →
      Ensures InOrder (fun _ : Fault => False) (checkIdleClient turn.now v i) := by
    intro v i hv
    refine ⟨fun w hok => hv.checkIdle hok, fun fault' hfails => ?_⟩
    unfold checkIdleClient at hfails
    split at hfails
    · next hgone =>
      obtain ⟨w, hw⟩ := exists_removed hgone.1.le (hv.fd_inRange hgone.1.le).2
      cases hw.symm.trans hfails
    · cases hfails
  cases hselect : turn.select with
  | ready fds => exact ⟨fds, rfl⟩
  | failed =>
    simp only [MinhServer.handleSelectEvents, hs.purge_watched, Bind.bind, Except.bind,
      hselect] at herror
    cases herror
  | timeout =>
    simp only [MinhServer.handleSelectEvents, hs.purge_watched, Bind.bind, Except.bind,
      hselect] at herror
    exact absurd herror fun hfails => (Ensures.foldlM hidle _ (hs.withReadFds _)).error fault hfails

theorem InOrder.call_error (hs : InOrder s) (hfresh : turn.AcceptsFresh s) {homeDir : Bytes}
    (hselect : turn.select = .ready fds) {fault : Fault}
    (herror : MinhServer.handleSelectEvents homeDir turn s = .error fault) :
    ServingFails homeDir turn s fault ∨ s.server.listenFd ∈ fds ∧ turn.AcceptsBeyond := by
  have hready : InOrder (s.selected fds) := hs.withReadFds _
  rw [hs.ready_eq hselect] at herror
  cases haccept : acceptNewClient turn (s.selected fds) with
  | error fault' =>
    obtain ⟨hlisten, hbeyond⟩ := hready.acceptNew_error hfresh haccept
    exact .inr ⟨(Finset.mem_inter.mp hlisten).2, hbeyond⟩
  | ok u =>
    have hu : InOrder u := hready.acceptNew hfresh haccept
    rw [haccept] at herror
    simp only [Except.bind] at herror
    obtain ⟨i, -, hserved, w, hopen, hfails⟩ := hu.serveAll_error (List.nodup_finRange _) herror
    have haccepts := acceptNewClient_accepts haccept
    have hi : Reported s fds i := (hs.isReady_iff hfresh haccepts).mp hserved
    rw [haccepts.fd_of_reported hi] at hopen hfails
    exact .inl ⟨fds, i, w, hselect, hi, hopen, hfails⟩

end Ready

/-- In every run of the select loop: a call has served each reported client once and nobody else,
and changed the slots of these clients and of the accepted one only. It returns unless a client's
handler takes an undefined step or the accepted descriptor has no bit in the sets. -/
theorem reported_served_once (homeDir : Bytes) (s : SelectState)
    (h : (selectLoop homeDir).Reachable s) (turn : Turn) (hfresh : turn.AcceptsFresh s)
    (fds : Finset Int) (hselect : turn.select = .ready fds) :
    (∀ t, handleSelectEvents homeDir turn s = .ok t → ServesReported homeDir turn fds s t) ∧
      ∀ fault, handleSelectEvents homeDir turn s = .error fault →
        ServingFails homeDir turn s fault ∨ turn.AcceptsBeyond := by
  have hs : InOrder s := (inOrder_invariant homeDir).holds h
  exact ⟨fun t hcall => hs.servesReported hfresh hselect hcall,
    fun fault herror => (hs.call_error hfresh hselect herror).imp_right And.right⟩

/-- Of two clients the first one is ready, while the second one connects. -/
theorem reported_served_once_first : ∃ s t : SelectState, ∃ turn : Turn,
    ServesReported (ascii "./www") turn {3, 4} s t ∧ turn.accept = some 5 ∧
      s.server.fd 0 = 4 := by
  let visit : Visit := ⟨.ofSegments [], [], ⟨fun _ => false, fun _ => none⟩⟩
  let turn : Turn := ⟨.ready {3, 4}, some 5, 101, fun _ => visit⟩
  have hrun : ((selectLoop (ascii "./www")).run (fun _ _ => True) (startedIn (ascii "select"))
      ((twoClients visit).take 1)).map (fun s => (s.server.fd 0, decide (turn.AcceptsFresh s),
        (handleSelectEvents (ascii "./www") turn s).toBool)) = some (4, true, true) := by
    decide +kernel
  obtain ⟨s, hs, hnext⟩ := Option.map_eq_some_iff.mp hrun
  simp only [Prod.mk.injEq, decide_eq_true_eq] at hnext
  obtain ⟨hfd, hfresh, hok⟩ := hnext
  have hreach : (selectLoop (ascii "./www")).Reachable s :=
    Machine.ReachableBy.run (.init (init_started _)) hs
  cases hcall : handleSelectEvents (ascii "./www") turn s with
  | error fault =>
    rw [hcall] at hok
    cases hok
  | ok t =>
    exact ⟨s, t, turn, (reported_served_once _ s hreach turn hfresh _ rfl).1 t hcall, rfl, hfd⟩

end MinhServer
