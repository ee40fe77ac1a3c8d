import Mathlib.Data.Int.Interval
import MinhServer.Readiness

namespace MinhServer
open CString Slots

theorem foldlM_fixed {σ α : Type} {f : σ → α → Except Fault σ} {s : σ} (hf : ∀ a, f s a = .ok s)
    (l : List α) : l.foldlM f s = .ok s := by
  induction l with
  | nil => rfl
  | cons a l ih =>
    rw [List.foldlM_cons, hf a]
    exact ih

/-- `accept` returns the lowest descriptor that is not open, below the limit of the process. -/
def Turn.AcceptsLowest (limit : Nat) (turn : Turn) (s : SelectState) : Prop :=
  ∀ fd ∈ turn.accept, fd = Worker.freeFd s.worker.fds ∧ fd < limit

instance (limit : Nat) (turn : Turn) (s : SelectState) : Decidable (turn.AcceptsLowest limit s) :=
  inferInstanceAs (Decidable (∀ fd ∈ turn.accept, fd = Worker.freeFd s.worker.fds ∧ fd < limit))

/-- The worker in select mode in a process whose descriptors 0 to `listen_fd` are open. -/
def selectProcess (homeDir : Bytes) (limit : Nat) : Machine SelectState Turn where
  init s := (selectLoop homeDir).init s ∧ ∀ fd, 0 ≤ fd → fd ≤ s.server.listenFd → fd ∈ s.worker.fds
  step s turn :=
    if turn.AcceptsLowest limit s then (handleSelectEvents homeDir turn s).toOption else none

/-- What is passed to `select`, and the descriptors of the table that are passed to the macros,
lie inside the sets. -/
structure ServerState.WithinFdSets (server : ServerState) : Prop where
  watched : server.maxFd + 1 ≤ fdSetSize
  listen : 0 ≤ server.listenFd ∧ server.listenFd ≤ server.maxFd
  clients : ∀ fd ∈ server.clientFds, 0 ≤ fd ∧ fd ≤ server.maxFd

/-- Whatever the clients send, the call puts no descriptor into the sets that is out of range:
if it fails, it is while a client is served. -/
def StaysInside (homeDir : Bytes) (turn : Turn) (s : SelectState) : Prop :=
  s.server.WithinFdSets ∧ ∀ visit fault,
    handleSelectEvents homeDir { turn with visit := visit } s = .error fault →
      ServingFails homeDir { turn with visit := visit } s fault

/-- During the call a connection is accepted. -/
def Turn.Connects (turn : Turn) (s : SelectState) : Prop :=
  ∃ fds, turn.select = .ready fds ∧ s.server.listenFd ∈ fds ∧ turn.accept.isSome

/-- A connection that is accepted gets a descriptor below `FD_SETSIZE`. -/
def HasRoom (s : SelectState) (turn : Turn) : Prop :=
  turn.Connects s → Worker.freeFd s.worker.fds < fdSetSize

/-- The table is in order, and the descriptors up to `listen_fd` are open and no client's. -/
structure Standing (s : SelectState) : Prop where
  order : InOrder s
  low : ∀ fd, 0 ≤ fd → fd ≤ s.server.listenFd → fd ∈ s.worker.fds
  above : ∀ i, 0 ≤ s.server.fd i → s.server.listenFd < s.server.fd i

section Standing
variable {homeDir : Bytes} {s t u : SelectState} {i : Fin maxClients} {turn : Turn}

theorem Standing.withinFdSets (h : Standing s) : s.server.WithinFdSets := by
  have hbooks := h.order.books
  refine ⟨hbooks.max_inRange, ⟨h.order.listen_inRange.1, ?_⟩, fun fd hfd => ⟨(mem_held.mp hfd).1, ?_⟩⟩
  · apply hbooks.max_le
    rw [hbooks.master]
    exact Finset.mem_insert_self _ _
  · apply hbooks.max_le
    rw [hbooks.master]
    exact Finset.mem_insert_of_mem hfd

theorem Standing.listen_lt (h : Standing s) {fd : Int} (hnonneg : 0 ≤ fd)
    (hnew : fd ∉ s.worker.fds) : s.server.listenFd < fd := by
  by_contra hle
  exact hnew (h.low fd hnonneg (not_lt.mp hle))

theorem Standing.listen_lt_freeFd (h : Standing s) :
    s.server.listenFd < Worker.freeFd s.worker.fds :=
  h.listen_lt (Int.natCast_nonneg _) (Worker.freeFd_notMem s.worker.fds)

theorem Standing.count_lt (h : Standing s) : s.server.clientCount < maxClients := by
  have hbooks := h.order.books
  have hsub : s.server.clientFds ⊆ Finset.Icc 1 1023 := by
    intro fd hfd
    obtain ⟨hnonneg, i, rfl⟩ := mem_held.mp hfd
    have habove := h.above i hnonneg
    have hlisten := h.order.listen_inRange.1
    have hrange : s.server.fd i < 1024 := (h.order.fd_inRange hnonneg).2
    exact Finset.mem_Icc.mpr ⟨by omega, by omega⟩
  have hcard := Finset.card_le_card hsub
  rw [ServerState.clientFds, card_held hbooks.distinct] at hcard
  rw [hbooks.count]
  have hinterval : (Finset.Icc (1 : Int) 1023).card = 1023 := by simp
  rw [hinterval] at hcard
  show ((occupied (fun fd : Int => 0 ≤ fd) s.server.fd).card : Int) < 1024
  omega

theorem Standing.withReadFds (h : Standing s) (readFds : FdSet) :
    Standing (s.withServer { s.server with readFds := readFds }) :=
  ⟨h.order.withReadFds readFds, h.low, h.above⟩

/-- Removing a client after, at most, its own descriptor was closed. -/
theorem Standing.removeClient (h : Standing s) (hserver : u.server = s.server)
    (hevents : ∀ e ∈ u.events, e.isUnexpected = false)
    (hfds : ∀ fd ∈ s.worker.fds, fd ≠ s.server.fd i → fd ∈ u.worker.fds)
    (hi : 0 ≤ s.server.fd i) (ht : removeClientFromSelect i u = .ok t) : Standing t := by
  have horder := h.order.books
  have habove := h.above
  have hlow := h.low
  rw [← hserver] at hfds hi horder habove hlow
  have hleft := InOrder.removeClient horder hevents hfds hi ht
  obtain ⟨m, -, rfl⟩ := removeClient_spec hi ht
  refine ⟨hleft, ?_, ?_⟩
  · intro fd hnonneg hle
    have hne : fd ≠ u.server.fd i := (hle.trans_lt (habove i hi)).ne
    exact Finset.mem_erase_of_ne_of_mem hne (hfds fd (hlow fd hnonneg hle) hne)
  · change ∀ j, 0 ≤ (u.server.withoutClient i m).fd j →
      u.server.listenFd < (u.server.withoutClient i m).fd j
    rw [ServerState.fd_withoutClient]
    exact (Function.forall_update_iff _ fun _ fd => 0 ≤ fd → u.server.listenFd < fd).mpr
      ⟨fun hnonneg => by omega, fun j _ => habove j⟩

theorem Standing.addClient (h : Standing s) {fd now : Int} {index : Option (Fin maxClients)}
    (hpos : 0 < fd) (hnew : fd ∉ s.worker.fds)
    (hadd : addClientToSelect fd now (s.open_ fd) = .ok (index, t)) : Standing t := by
  have hlisten := h.listen_lt hpos.le hnew
  have horder := h.order.addClient hpos hnew hadd
  have hkept : ∀ low, 0 ≤ low → low ≤ s.server.listenFd →
      low ∈ (insert fd s.worker.fds).erase fd := by
    intro low hlow hle
    rw [Finset.erase_insert hnew]
    exact h.low low hlow hle
  rcases addClient_cases hadd with ⟨-, ⟨-, rfl⟩ | ⟨-, -, rfl⟩⟩ | ⟨i, m, -, -, -, -, rfl⟩
  · exact ⟨horder, hkept, h.above⟩
  · exact ⟨horder, hkept, h.above⟩
  · refine ⟨horder, fun low hlow hle => Finset.mem_insert_of_mem (h.low low hlow hle), ?_⟩
    change ∀ j, 0 ≤ (s.server.withClient i _ m).fd j →
      s.server.listenFd < (s.server.withClient i _ m).fd j
    rw [ServerState.fd_withClient]
    exact (Function.forall_update_iff _ fun _ fd => 0 ≤ fd → s.server.listenFd < fd).mpr
      ⟨fun _ => hlisten, fun j _ => h.above j⟩

/-- A client's handler closes no other descriptor. -/
theorem Standing.serve (h : Standing s) {visit : Visit} (hi : 0 ≤ s.server.fd i)
    (hserve : serveClient homeDir visit s i = .ok t) : Standing t := by
  rw [serveClient_eq] at hserve
  obtain ⟨session, hsession, hserve⟩ := bind_eq_ok.mp hserve
  obtain ⟨-, hothers⟩ := serveRequests_closesOnly hsession
  have hevents := expected_notify h.order.expected (e := .served i (s.server.fd i)) rfl
  exact h.removeClient (u := (s.notify (.served i (s.server.fd i))).withWorker session.worker)
    rfl hevents hothers.fds hi hserve

theorem Standing.acceptsFresh (h : Standing s) {limit : Nat}
    (hlowest : turn.AcceptsLowest limit s) : turn.AcceptsFresh s := by
  intro fd hfd
  obtain ⟨rfl, -⟩ := hlowest fd hfd
  exact ⟨h.order.listen_inRange.1.trans_lt h.listen_lt_freeFd, Worker.freeFd_notMem s.worker.fds⟩

/-- A call keeps the table in order. -/
theorem Standing.call (h : Standing s) {limit : Nat} (hlowest : turn.AcceptsLowest limit s)
    (hcall : handleSelectEvents homeDir turn s = .ok t) : Standing t := by
  refine h.order.call_rule (h.acceptsFresh hlowest) hcall h ?_ ?_ ?_ ?_
  · exact fun u readFds hu => hu.withReadFds readFds
  · exact fun u v i horder hu hi hremove =>
      hu.removeClient rfl horder.expected (fun _ hfd _ => hfd) hi hremove
  · exact fun u v i _ hu hi hserve => hu.serve hi hserve
  · exact fun u v fd index _ hu hpos hnew hadd => hu.addClient hpos hnew hadd

theorem Standing.call_error (h : Standing s) {limit : Nat} (hlowest : turn.AcceptsLowest limit s)
    (hroom : HasRoom s turn) {fault : Fault}
    (herror : handleSelectEvents homeDir turn s = .error fault) :
    ServingFails homeDir turn s fault := by
  obtain ⟨fds, hselect⟩ := h.order.ready_of_error herror
  rcases h.order.call_error (h.acceptsFresh hlowest) hselect herror with
    hfails | ⟨hready, fd, hfd, hbeyond⟩
  · exact hfails
  · obtain ⟨rfl, -⟩ := hlowest fd hfd
    have hlt := hroom ⟨fds, hselect, hready, by rw [hfd]; rfl⟩
    exact absurd hlt (not_lt.mpr hbeyond)

theorem Standing.admits (h : Standing s) (clientFd now : Int) :
    ∃ i, freeSlot s.server = some i ∧ addClientToSelect clientFd now (s.open_ clientFd) =
      (s.server.masterFds.set clientFd).bind fun masterFds =>
        .ok (some i, (s.open_ clientFd).admitted i clientFd now masterFds) := by
  obtain ⟨i, hi⟩ := Option.isSome_iff_exists.mp (freeSlot_isSome h.order.books h.count_lt)
  have hcount := h.count_lt
  refine ⟨i, hi, ?_⟩
  unfold addClientToSelect
  rw [SelectState.open_server, if_neg (not_le.mpr hcount)]
  simp only [hi]
  rfl

theorem Standing.accepts (h : Standing s) (hready : s.server.listenFd ∈ s.server.readFds.fds)
    {clientFd : Int} (haccept : turn.accept = some clientFd) :
    acceptNewClient turn s =
      (addClientToSelect clientFd turn.now (s.open_ clientFd)).map Prod.snd := by
  rw [h.order.acceptNew_eq, if_pos hready, haccept]

theorem Standing.exists_set (h : Standing s) (hroom : Worker.freeFd s.worker.fds < fdSetSize) :
    ∃ m, s.server.masterFds.set (Worker.freeFd s.worker.fds) = .ok m := by
  have hlisten := h.listen_lt_freeFd
  have hnonneg := h.order.listen_inRange.1
  unfold FdSet.set
  rw [dif_pos ⟨by omega, hroom⟩]
  exact ⟨_, rfl⟩

theorem Standing.selected (h : Standing s) (fds : Finset Int) : Standing (s.selected fds) :=
  h.withReadFds _

theorem Standing.listen_ready (h : Standing s) {fds : Finset Int} (hready : s.server.listenFd ∈ fds) :
    (s.selected fds).server.listenFd ∈ (s.selected fds).server.readFds.fds := by
  apply Finset.mem_inter.mpr
  rw [h.order.books.master]
  exact ⟨Finset.mem_insert_self _ _, hready⟩

theorem Standing.overflows (h : Standing s) {limit : Nat} (hlowest : turn.AcceptsLowest limit s)
    (hroom : ¬ HasRoom s turn) : handleSelectEvents homeDir turn s = .error .overflow := by
  obtain ⟨⟨fds, hfds, hready, haccept⟩, hfull⟩ := Classical.not_imp.mp hroom
  obtain ⟨fd, hfd⟩ := Option.isSome_iff_exists.mp haccept
  obtain ⟨rfl, -⟩ := hlowest fd hfd
  obtain ⟨i, -, hadmits⟩ := (h.selected fds).admits (Worker.freeFd s.worker.fds) turn.now
  have hset : (s.selected fds).server.masterFds.set (Worker.freeFd s.worker.fds) =
      .error .overflow := dif_neg fun hrange => hfull hrange.2
  rw [hset] at hadmits
  rw [h.order.ready_eq hfds, (h.selected fds).accepts (h.listen_ready hready) hfd, hadmits]
  rfl

/-- A new client that finds room, while no other one is ready. -/
theorem Standing.connects (h : Standing s) (homeDir : Bytes)
    (hroom : Worker.freeFd s.worker.fds < fdSetSize) (now : Int) (visit : Fin maxClients → Visit) :
    ∃ t, handleSelectEvents homeDir
        ⟨.ready {s.server.listenFd}, some (Worker.freeFd s.worker.fds), now, visit⟩ s = .ok t ∧
      t.worker.fds = insert (Worker.freeFd s.worker.fds) s.worker.fds ∧
      t.server.clientFds = insert (Worker.freeFd s.worker.fds) s.server.clientFds ∧
      t.server.listenFd = s.server.listenFd := by
  generalize hturn : (⟨.ready {s.server.listenFd}, some (Worker.freeFd s.worker.fds), now,
    visit⟩ : Turn) = turn
  have hfds : turn.select = .ready {s.server.listenFd} := by rw [← hturn]
  have haccept : turn.accept = some (Worker.freeFd s.worker.fds) := by rw [← hturn]
  have hsel := h.selected {s.server.listenFd}
  obtain ⟨m, hm⟩ := hsel.exists_set hroom
  obtain ⟨i, hi, hadmits⟩ := hsel.admits (Worker.freeFd s.worker.fds) turn.now
  change (s.selected _).server.masterFds.set (Worker.freeFd s.worker.fds) = .ok m at hm
  rw [hm] at hadmits
  have hpos : 0 < Worker.freeFd s.worker.fds :=
    h.order.listen_inRange.1.trans_lt h.listen_lt_freeFd
  have hadded := hsel.addClient hpos (Worker.freeFd_notMem s.worker.fds) hadmits
  rw [h.order.ready_eq hfds, hsel.accepts (h.listen_ready (by simp)) haccept, hadmits]
  simp only [Except.bind, Except.map]
  have hclients : (s.server.withClient i ⟨Worker.freeFd s.worker.fds, turn.now⟩ m).clientFds =
      insert (Worker.freeFd s.worker.fds) s.server.clientFds :=
    ServerState.clientFds_withClient (fd_of_freeSlot hi) hpos.le m
  refine ⟨_, foldlM_fixed (fun j => ?_) _, rfl, hclients, rfl⟩
  rw [hadded.order.serveIfReady_eq, if_neg]
  rintro ⟨hpos, hmem⟩
  have habove := hadded.above j hpos.le
  have hlisten := Finset.mem_singleton.mp (Finset.mem_inter.mp hmem).2
  exact habove.ne' hlisten

end Standing

section Runs
variable {homeDir : Bytes} {limit : Nat} {s : SelectState} {turn : Turn}

/-- Nobody sends anything. -/
def quietVisit : Fin maxClients → Visit := fun _ =>
  ⟨⟨[], .silent⟩, [], ⟨fun _ => false, fun _ => none⟩⟩

theorem not_servingFails_quiet (fault : Fault) :
    ¬ ServingFails homeDir { turn with visit := quietVisit } s fault := by
  rintro ⟨fds, i, w, -, -, hopen, hfails⟩
  have hnone : receive .nonblocking (s.server.fd i) (quietVisit i).peer
      (({ w with sends := (quietVisit i).sends } : Worker).record
        (.setTimeout (s.server.fd i) 30)) = (none, ⟨[], .silent⟩) := by
    refine (if_pos hopen).trans ?_
    rw [recvRequest, recvLoop_eq]
    rfl
  rw [Visit.session, handleOneClientRequest] at hfails
  dsimp only at hfails
  rw [serveRequests_none hnone] at hfails
  cases hfails

theorem Standing.staysInside_iff (h : Standing s) (hlowest : turn.AcceptsLowest limit s) :
    StaysInside homeDir turn s ↔ HasRoom s turn := by
  constructor
  · intro hstays
    by_contra hroom
    have hquiet : ({ turn with visit := quietVisit } : Turn).AcceptsLowest limit s := hlowest
    exact not_servingFails_quiet _ (hstays.2 quietVisit .overflow (h.overflows hquiet hroom))
  · intro hroom
    refine ⟨h.withinFdSets, fun visit fault herror => ?_⟩
    have hlowest' : ({ turn with visit := visit } : Turn).AcceptsLowest limit s := hlowest
    have hroom' : HasRoom s { turn with visit := visit } := hroom
    exact h.call_error hlowest' hroom' herror

theorem standing_invariant :
    (selectProcess homeDir limit).Invariant (fun _ _ => True) Standing where
  init := by
    rintro s ⟨⟨mode, setup, before, hmode, hevents, hinit⟩, hlow⟩
    obtain ⟨sockfd, -, hserver, -⟩ := initSocket_select hmode hinit
    obtain ⟨-, -, -, -, -, hfd⟩ := ServerState.listening_eq hserver
    refine ⟨InOrder.initSocket hmode hevents hinit, hlow, fun i hi => ?_⟩
    have := hfd i
    omega
  step := by
    intro s turn t hs _ hstep
    dsimp only [selectProcess] at hstep
    split at hstep
    · next hlowest =>
      exact hs.call hlowest (toOption_eq_some hstep)
    · cases hstep

theorem reaches_next (hlimit : 1024 ≤ limit) (hs : (selectProcess homeDir limit).Reachable s)
    (hroom : Worker.freeFd s.worker.fds < fdSetSize) :
    ∃ t, (selectProcess homeDir limit).Reachable t ∧
      t.worker.fds = insert (Worker.freeFd s.worker.fds) s.worker.fds ∧
      t.server.clientFds = insert (Worker.freeFd s.worker.fds) s.server.clientFds ∧
      t.server.listenFd = s.server.listenFd := by
  have hstanding : Standing s := standing_invariant.holds hs
  obtain ⟨t, ht, hnext⟩ := hstanding.connects homeDir hroom 0 quietVisit
  have hlt : Worker.freeFd s.worker.fds < 1024 := hroom
  have hlowest : (⟨.ready {s.server.listenFd}, some (Worker.freeFd s.worker.fds), 0,
      quietVisit⟩ : Turn).AcceptsLowest limit s := by
    intro fd hfd
    obtain rfl := Option.some.inj hfd
    exact ⟨rfl, by omega⟩
  have hstep : (selectProcess homeDir limit).step s ⟨.ready {s.server.listenFd},
      some (Worker.freeFd s.worker.fds), 0, quietVisit⟩ = some t := by
    dsimp only [selectProcess]
    rw [if_pos hlowest, ht]
    rfl
  exact ⟨t, .step hs trivial hstep, hnext⟩

/-- More clients connect until each descriptor below `FD_SETSIZE` is taken. -/
theorem reaches_full (hlimit : 1024 ≤ limit) (hs : (selectProcess homeDir limit).Reachable s)
    (hfds : ∀ fd ∈ s.worker.fds, fd ≤ 1023) :
    ∃ t, (selectProcess homeDir limit).Reachable t ∧ Worker.freeFd t.worker.fds = 1024 := by
  induction hn : (Finset.Icc 0 1023 \ s.worker.fds).card using Nat.strong_induction_on
    generalizing s with
  | _ n ih =>
  have hfree := Worker.freeFd_notMem s.worker.fds
  by_cases hroom : Worker.freeFd s.worker.fds < fdSetSize
  · obtain ⟨t, ht, htaken, -⟩ := reaches_next hlimit hs hroom
    have hlt : Worker.freeFd s.worker.fds < 1024 := hroom
    have hmem : Worker.freeFd s.worker.fds ∈ Finset.Icc (0 : Int) 1023 := by
      have hnonneg : 0 ≤ Worker.freeFd s.worker.fds := Int.natCast_nonneg _
      exact Finset.mem_Icc.mpr ⟨hnonneg, by omega⟩
    have hless : (Finset.Icc 0 1023 \ t.worker.fds).card < n := by
      rw [← hn, htaken]
      apply Finset.card_lt_card
      rw [Finset.sdiff_insert]
      exact Finset.erase_ssubset (Finset.mem_sdiff.mpr ⟨hmem, hfree⟩)
    have hbelow : ∀ fd ∈ t.worker.fds, fd ≤ 1023 := by
      intro fd hfd
      rw [htaken, Finset.mem_insert] at hfd
      rcases hfd with rfl | hfd
      · omega
      · exact hfds fd hfd
    exact ih _ hless ht hbelow rfl
  · have hout : ((1024 : Nat) : Int) ∉ s.worker.fds := by
      intro hmem
      have hle := hfds _ hmem
      omega
    -- 1024 itself is not open, so the lowest free descriptor is exactly that
    have hle := Worker.freeFd_le hout
    have hge : 1024 ≤ Worker.freeFd s.worker.fds := not_lt.mp hroom
    exact ⟨s, hs, by omega⟩

theorem init_process (homeDir : Bytes) (limit : Nat) :
    (selectProcess homeDir limit).init (startedIn (ascii "select")) := by
  refine ⟨init_started homeDir, fun fd hnonneg hle => ?_⟩
  change fd ≤ 3 at hle
  change fd ∈ insert 3 ({0, 1, 2} : Finset Int)
  simp only [Finset.mem_insert, Finset.mem_singleton]
  omega

theorem freeFd_eq {fds : Finset Int} {n : Nat} (hout : (n : Int) ∉ fds)
    (hbelow : ∀ m < n, (m : Int) ∈ fds) : Worker.freeFd fds = n := by
  refine le_antisymm (Worker.freeFd_le hout) (not_lt.mp fun hlt => ?_)
  have hnonneg : 0 ≤ Worker.freeFd fds := Int.natCast_nonneg _
  have hmem := hbelow (Worker.freeFd fds).toNat (by omega)
  rw [Int.toNat_of_nonneg hnonneg] at hmem
  exact Worker.freeFd_notMem fds hmem

theorem exists_two (homeDir : Bytes) : ∃ s, (selectProcess homeDir 1032).Reachable s ∧
    s.server.clientFds = {5, 4} ∧ s.server.listenFd = 3 ∧ Worker.freeFd s.worker.fds = 6 := by
  have hstart : (startedIn (ascii "select")).worker.fds = {3, 0, 1, 2} := rfl
  have hempty : (startedIn (ascii "select")).server.clientFds = ∅ :=
    ServerState.clientFds_empty fun _ => rfl
  have hfirst : Worker.freeFd {3, 0, 1, 2} = 4 := freeFd_eq (by decide) (by decide)
  have hsecond : Worker.freeFd {4, 3, 0, 1, 2} = 5 := freeFd_eq (by decide) (by decide)
  have hthird : Worker.freeFd {5, 4, 3, 0, 1, 2} = 6 := freeFd_eq (by decide) (by decide)
  obtain ⟨t, ht, hfds, hclients, hlisten⟩ := reaches_next (s := startedIn (ascii "select"))
    (by omega) (.init (init_process homeDir 1032)) (by rw [hstart, hfirst]; decide)
  rw [hstart, hfirst] at hfds
  rw [hstart, hfirst, hempty] at hclients
  obtain ⟨s, hs, hfds', hclients', hlisten'⟩ := reaches_next (by omega) ht
    (by rw [hfds, hsecond]; decide)
  rw [hfds, hsecond] at hfds'
  rw [hfds, hsecond, hclients] at hclients'
  exact ⟨s, hs, hclients', hlisten'.trans hlisten, by rw [hfds', hthird]⟩

theorem exists_full (homeDir : Bytes) : ∃ s, (selectProcess homeDir 1032).Reachable s ∧
    Worker.freeFd s.worker.fds = 1024 := by
  refine reaches_full (by omega) (.init (init_process homeDir 1032)) fun fd hfd => ?_
  have hstandard : fd ∈ insert 3 ({0, 1, 2} : Finset Int) := hfd
  simp only [Finset.mem_insert, Finset.mem_singleton] at hstandard
  omega

theorem connects_full {s : SelectState} (hfull : Worker.freeFd s.worker.fds = 1024) :
    let turn : Turn := ⟨.ready {s.server.listenFd}, some 1024, 0, quietVisit⟩
    turn.AcceptsLowest 1032 s ∧ turn.Connects s ∧ ¬ HasRoom s turn := by
  intro turn
  have hconnects : turn.Connects s := ⟨_, rfl, Finset.mem_singleton_self _, rfl⟩
  refine ⟨fun fd hfd => ?_, hconnects, fun hroom => ?_⟩
  · obtain rfl := Option.some.inj hfd
    exact ⟨hfull.symm, by omega⟩
  · have hlt := hroom hconnects
    rw [hfull] at hlt
    exact lt_irrefl _ hlt

end Runs

/-- In every run of the select loop, a call keeps all descriptors inside the sets exactly when
a connection that it accepts gets one below `FD_SETSIZE`. -/
theorem select_staysInside_iff (homeDir : Bytes) (limit : Nat) (s : SelectState)
    (h : (selectProcess homeDir limit).Reachable s) (turn : Turn)
    (hlowest : turn.AcceptsLowest limit s) : StaysInside homeDir turn s ↔ HasRoom s turn := by
  have hs : Standing s := standing_invariant.holds h
  exact hs.staysInside_iff hlowest

/-- A third client connects while the first one is served; later the table is full and one more
connects. -/
theorem select_staysInside_iff_third : ∃ s s' : SelectState, ∃ turn turn' : Turn,
    s.server.clientFds = {5, 4} ∧ (turn.Connects s ∧ turn.select = .ready {3, 4}) ∧
      StaysInside (ascii "./www") turn s ∧ turn'.Connects s' ∧
      ¬ StaysInside (ascii "./www") turn' s' := by
  let visit : Visit :=
    ⟨.ofSegments [ascii "OPTIONS /b HTTP/1.1\r\n\r\n"], [], ⟨fun _ => false, fun _ => none⟩⟩
  let turn : Turn := ⟨.ready {3, 4}, some 6, 102, fun _ => visit⟩
  obtain ⟨s, hreach, hclients, hlisten, hfree⟩ := exists_two (ascii "./www")
  have hlowest : turn.AcceptsLowest 1032 s := by
    intro fd hfd
    obtain rfl := Option.some.inj hfd
    exact ⟨hfree.symm, by omega⟩
  have hconnects : turn.Connects s := ⟨_, rfl, by rw [hlisten]; decide, rfl⟩
  have hstays : StaysInside (ascii "./www") turn s := by
    refine (select_staysInside_iff _ 1032 s hreach turn hlowest).mpr fun _ => ?_
    rw [hfree]
    decide
  obtain ⟨s', hreach', hfull⟩ := exists_full (ascii "./www")
  obtain ⟨hlowest', hconnects', hnoRoom⟩ := connects_full hfull
  refine ⟨s, s', turn, _, hclients, ⟨hconnects, rfl⟩, hstays, hconnects', fun hinside => ?_⟩
  exact hnoRoom ((select_staysInside_iff _ 1032 s' hreach' _ hlowest').mp hinside)

/-- The table is filled up, and one more client connects. -/
theorem full_fdSet_not_refused : ¬ ∀ homeDir limit s turn, maxClients + 8 ≤ limit →
    (selectProcess homeDir limit).Reachable s → turn.AcceptsLowest limit s →
    StaysInside homeDir turn s := by
  intro h
  obtain ⟨s, hs, hfull⟩ := exists_full (ascii "./www")
  obtain ⟨hlowest, -, hnoRoom⟩ := connects_full hfull
  have hstanding : Standing s := standing_invariant.holds hs
  exact hnoRoom ((hstanding.staysInside_iff hlowest).mp (h _ 1032 s _ (by decide) hs hlowest))

end MinhServer
