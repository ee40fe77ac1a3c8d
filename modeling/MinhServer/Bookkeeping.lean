import MinhServer.Library.Ensures
import MinhServer.Select

namespace MinhServer
open CString Slots

def ServerState.clientSlots (server : ServerState) : Finset (Fin maxClients) :=
  occupied (fun fd : Int => 0 ≤ fd) server.fd

def ServerState.clientFds (server : ServerState) : Finset Int :=
  held (fun fd : Int => 0 ≤ fd) server.fd

/-- What the table says, with `fds` the descriptors the process has open. -/
structure Bookkeeping (server : ServerState) (fds : Finset Int) : Prop where
  positive : ∀ i, 0 ≤ server.fd i → 0 < server.fd i
  distinct : Distinct (fun fd : Int => 0 ≤ fd) server.fd
  clients_ne_listen : server.listenFd ∉ server.clientFds
  clients_open : server.clientFds ⊆ fds
  listen_open : server.listenFd ∈ fds
  master : server.masterFds.fds = insert server.listenFd server.clientFds
  count : server.clientCount = server.clientSlots.card
  max_le : ∀ fd ∈ server.masterFds.fds, fd ≤ server.maxFd
  max_inRange : server.maxFd < fdSetSize

theorem ServerState.fd_update (server : ServerState) (i : Fin maxClients) (client : ClientInfo) :
    (fun j => (Function.update server.clients i client j).fd) =
      Function.update server.fd i client.fd := by
  funext j
  by_cases hj : j = i
  · subst hj
    simp only [Function.update_self]
  · simp only [Function.update_of_ne hj]
    rfl

theorem ServerState.fd_withClient (server : ServerState) (i : Fin maxClients)
    (client : ClientInfo) (m : FdSet) :
    (server.withClient i client m).fd = Function.update server.fd i client.fd :=
  server.fd_update i client

theorem ServerState.fd_withoutClient (server : ServerState) (i : Fin maxClients) (m : FdSet) :
    (server.withoutClient i m).fd = Function.update server.fd i (-1) :=
  server.fd_update i { server.clients i with fd := -1 }

theorem ServerState.clientFds_withClient {server : ServerState} {i : Fin maxClients}
    (hfree : server.fd i < 0) {client : ClientInfo} (hfd : 0 ≤ client.fd) (m : FdSet) :
    (server.withClient i client m).clientFds = insert client.fd server.clientFds := by
  unfold ServerState.clientFds
  rw [ServerState.fd_withClient]
  exact held_put (by omega) hfd

theorem ServerState.clientFds_withoutClient {server : ServerState}
    (h : Distinct (fun fd : Int => 0 ≤ fd) server.fd) (i : Fin maxClients) (m : FdSet) :
    (server.withoutClient i m).clientFds = server.clientFds.erase (server.fd i) := by
  unfold ServerState.clientFds
  rw [ServerState.fd_withoutClient]
  exact held_clear (by omega) h

theorem freeSlot_isSome {server : ServerState} {fds : Finset Int} (h : Bookkeeping server fds)
    (hcount : server.clientCount < maxClients) : (freeSlot server).isSome := by
  have hcard : server.clientSlots.card < Fintype.card (Fin maxClients) := by
    rw [h.count] at hcount
    rw [Fintype.card_fin]
    exact_mod_cast hcount
  obtain ⟨i, hi⟩ := exists_free hcard
  rw [freeSlot, List.find?_isSome]
  exact ⟨i, List.mem_finRange i, by simpa using hi⟩

theorem fd_of_freeSlot {server : ServerState} {i : Fin maxClients}
    (h : freeSlot server = some i) : server.fd i < 0 := by
  have := List.find?_some h
  simpa using this

theorem Bookkeeping.add {server : ServerState} {fds : Finset Int} (h : Bookkeeping server fds)
    {i : Fin maxClients} (hfree : server.fd i < 0) {client : ClientInfo} (hpos : 0 < client.fd)
    (hnew : client.fd ∉ fds) {m : FdSet} (hset : server.masterFds.set client.fd = .ok m) :
    Bookkeeping (server.withClient i client m) (insert client.fd fds) := by
  obtain ⟨hrange, hm⟩ := FdSet.set_eq_ok hset
  have hfree' : ¬ 0 ≤ server.fd i := by omega
  have hheld := ServerState.clientFds_withClient hfree hrange.1 m
  have hcard : (server.withClient i client m).clientSlots.card = server.clientSlots.card + 1 := by
    unfold ServerState.clientSlots
    rw [ServerState.fd_withClient]
    exact card_occupied_put hfree' hrange.1
  -- an open descriptor would not be new
  have hother : ∀ j, j ≠ i → server.fd j ≠ client.fd := fun j _ heq =>
    hnew (h.clients_open (mem_held.mpr ⟨hrange.1, j, heq⟩))
  have hmax : server.maxFd ≤ (server.withClient i client m).maxFd ∧
      client.fd ≤ (server.withClient i client m).maxFd := by
    show server.maxFd ≤ (if _ then _ else _) ∧ client.fd ≤ (if _ then _ else _)
    split <;> omega
  exact {
    positive := by
      rw [ServerState.fd_withClient]
      exact (Function.forall_update_iff _ fun _ fd => 0 ≤ fd → 0 < fd).mpr
        ⟨fun _ => hpos, fun j _ => h.positive j⟩
    distinct := by
      rw [ServerState.fd_withClient]
      exact h.distinct.put hother
    clients_ne_listen := by
      rw [hheld, Finset.mem_insert, not_or]
      exact ⟨fun heq => hnew (heq ▸ h.listen_open), h.clients_ne_listen⟩
    clients_open := by
      rw [hheld]
      exact Finset.insert_subset_insert _ h.clients_open
    listen_open := Finset.mem_insert_of_mem h.listen_open
    master := by
      show m.fds = _
      rw [hheld, hm, h.master]
      exact Finset.insert_comm _ _ _
    count := by
      show server.clientCount + 1 = _
      rw [hcard, h.count]
      rfl
    max_le := by
      intro fd hfd
      have hfd' : fd ∈ insert client.fd server.masterFds.fds := hm ▸ hfd
      rcases Finset.mem_insert.mp hfd' with rfl | hmem
      · exact hmax.2
      · exact (h.max_le fd hmem).trans hmax.1
    max_inRange := by
      have := h.max_inRange
      show (if _ then _ else _) < fdSetSize
      split <;> omega }

theorem foldl_max {α : Type} (f : α → Int) (l : List α) (m : Int) :
    let r := l.foldl (fun m i => if m < f i then f i else m) m
    m ≤ r ∧ (∀ i ∈ l, f i ≤ r) ∧ (r = m ∨ ∃ i ∈ l, r = f i) := by
  induction l generalizing m with
  | nil => simp
  | cons i l ih =>
    obtain ⟨hm, hl, hr⟩ := ih (if m < f i then f i else m)
    have hstep : m ≤ (if m < f i then f i else m) ∧ f i ≤ (if m < f i then f i else m) := by
      split <;> omega
    dsimp only [List.foldl_cons] at hm hl hr ⊢
    refine ⟨hstep.1.trans hm, ?_, ?_⟩
    · intro j hj
      rcases List.mem_cons.mp hj with rfl | hj
      · exact hstep.2.trans hm
      · exact hl j hj
    · rcases hr with hr | ⟨j, hj, hr⟩
      · by_cases hlt : m < f i
        · rw [if_pos hlt] at hr ⊢
          exact .inr ⟨i, by simp, hr⟩
        · rw [if_neg hlt] at hr ⊢
          exact .inl hr
      · exact .inr ⟨j, by simp [hj], hr⟩

theorem Bookkeeping.largestFd {server : ServerState} {fds : Finset Int}
    (h : Bookkeeping server fds) :
    (∀ fd ∈ server.masterFds.fds, fd ≤ server.largestFd) ∧ server.largestFd < fdSetSize := by
  obtain ⟨hlisten, hclients, hr⟩ :=
    foldl_max server.fd (List.finRange maxClients) server.listenFd
  constructor
  · intro fd hfd
    rw [h.master, Finset.mem_insert] at hfd
    rcases hfd with rfl | hfd
    · exact hlisten
    · obtain ⟨-, i, rfl⟩ := mem_held.mp hfd
      exact hclients i (List.mem_finRange i)
  · have hmaster : ∀ fd ∈ insert server.listenFd server.clientFds, fd < fdSetSize := by
      rw [← h.master]
      exact fun fd hfd => (server.masterFds.inRange fd hfd).2
    rcases hr with hr | ⟨i, -, hr⟩
    · rw [ServerState.largestFd, hr]
      exact hmaster _ (Finset.mem_insert_self _ _)
    · rw [ServerState.largestFd, hr]
      by_cases hi : 0 ≤ server.fd i
      · exact hmaster _ (Finset.mem_insert_of_mem (held_of_used hi))
      · show server.fd i < 1024
        omega

/-- Only the descriptor of the slot may have been closed before. -/
theorem Bookkeeping.remove {server : ServerState} {fds fds' : Finset Int}
    (h : Bookkeeping server fds) {i : Fin maxClients} (hi : 0 ≤ server.fd i) {m : FdSet}
    (hclear : server.masterFds.clear (server.fd i) = .ok m)
    (hfds : ∀ fd ∈ fds, fd ≠ server.fd i → fd ∈ fds') :
    Bookkeeping (server.withoutClient i m) fds' := by
  have hm := FdSet.clear_eq_ok hclear
  have hheld := ServerState.clientFds_withoutClient h.distinct i m
  have hcard : (server.withoutClient i m).clientSlots.card + 1 = server.clientSlots.card := by
    unfold ServerState.clientSlots
    rw [ServerState.fd_withoutClient]
    exact card_occupied_clear (by omega) hi
  -- the listening socket is nobody's slot, so it stays in the set
  have hlisten : server.listenFd ≠ server.fd i := fun heq =>
    h.clients_ne_listen (heq ▸ held_of_used hi)
  exact {
    positive := by
      rw [ServerState.fd_withoutClient]
      exact (Function.forall_update_iff _ fun _ fd => 0 ≤ fd → 0 < fd).mpr
        ⟨fun hnonneg => by omega, fun j _ => h.positive j⟩
    distinct := by
      rw [ServerState.fd_withoutClient]
      exact h.distinct.clear (by omega)
    clients_ne_listen := by
      rw [hheld]
      exact fun hmem => h.clients_ne_listen (Finset.mem_of_mem_erase hmem)
    clients_open := by
      intro fd hfd
      rw [hheld, Finset.mem_erase] at hfd
      exact hfds fd (h.clients_open hfd.2) hfd.1
    listen_open := hfds _ h.listen_open hlisten
    master := by
      show m.fds = _
      rw [hheld, hm, h.master, Finset.erase_insert_of_ne hlisten]
      rfl
    count := by
      show server.clientCount - 1 = _
      rw [h.count, ← hcard]
      push_cast
      omega
    max_le := by
      intro fd hfd
      have hfd' : fd ∈ server.masterFds.fds := Finset.mem_of_mem_erase (hm ▸ hfd)
      show fd ≤ (if _ then _ else _)
      split
      · exact h.largestFd.1 fd hfd'
      · exact h.max_le fd hfd'
    max_inRange := by
      show (if _ then _ else _) < fdSetSize
      split
      · exact h.largestFd.2
      · exact h.max_inRange }

/-- The two events that a table in order never gives rise to. -/
def Event.isUnexpected : Event → Bool
  | .badFd _ | .noFreeSlot _ => true
  | .limitReached _ | .connected _ _ | .served _ _ | .disconnected _ _ => false

structure InOrder (s : SelectState) : Prop where
  books : Bookkeeping s.server s.worker.fds
  expected : ∀ e ∈ s.events, e.isUnexpected = false

theorem expected_notify {events : List Event} (h : ∀ e ∈ events, e.isUnexpected = false) {e : Event}
    (he : e.isUnexpected = false) : ∀ e' ∈ events ++ [e], e'.isUnexpected = false := by
  intro e' hmem
  rcases List.mem_append.mp hmem with hmem | hmem
  · exact h e' hmem
  · rw [List.mem_singleton.mp hmem]
    exact he

theorem InOrder.purge {s : SelectState} (h : InOrder s) (is : List Nat)
    (his : ∀ i ∈ is, (i : Int) < fdSetSize) : purgeMasterFds is s = .ok s := by
  induction is with
  | nil => rfl
  | cons i is ih =>
    have hrange : 0 ≤ (i : Int) ∧ (i : Int) < fdSetSize := ⟨by omega, his i (by simp)⟩
    have hopen : (i : Int) ∈ s.server.masterFds.fds → (i : Int) ∈ s.worker.fds := by
      rw [h.books.master, Finset.mem_insert]
      rintro (heq | hmem)
      · exact heq ▸ h.books.listen_open
      · exact h.books.clients_open hmem
    rw [purgeMasterFds, FdSet.isSet_of_inRange hrange]
    show (if _ ∧ _ then _ else _) = _
    rw [if_neg (by simpa using hopen)]
    exact ih fun j hj => his j (by simp [hj])

theorem InOrder.purge_watched {s : SelectState} (h : InOrder s) :
    purgeMasterFds s.server.watched s = .ok s := by
  apply h.purge
  intro i hi
  have hlt := List.mem_range.mp hi
  have hmax : s.server.maxFd < 1024 := h.books.max_inRange
  show (i : Int) < 1024
  omega

theorem InOrder.withReadFds {s : SelectState} (h : InOrder s) (readFds : FdSet) :
    InOrder (s.withServer { s.server with readFds := readFds }) where
  books := ⟨h.books.positive, h.books.distinct, h.books.clients_ne_listen, h.books.clients_open,
    h.books.listen_open, h.books.master, h.books.count, h.books.max_le, h.books.max_inRange⟩
  expected := h.expected

theorem addClientToSelect_refused {s t : SelectState} {fd now : Int} (hnew : fd ∉ s.worker.fds)
    (h : addClientToSelect fd now (s.open_ fd) = .ok (none, t)) :
    t.server = s.server ∧ t.worker.fds = s.worker.fds := by
  rcases addClient_cases h with ⟨-, ⟨-, rfl⟩ | ⟨-, -, rfl⟩⟩ | ⟨i, m, hindex, -⟩
  · exact ⟨rfl, Finset.erase_insert hnew⟩
  · exact ⟨rfl, Finset.erase_insert hnew⟩
  · cases hindex

theorem InOrder.addClient {s t : SelectState} (h : InOrder s) {fd now : Int} (hpos : 0 < fd)
    (hnew : fd ∉ s.worker.fds) {index : Option (Fin maxClients)}
    (hadd : addClientToSelect fd now (s.open_ fd) = .ok (index, t)) : InOrder t := by
  rcases addClient_cases hadd with ⟨-, ⟨-, rfl⟩ | ⟨hcount, hnone, -⟩⟩ | ⟨i, m, -, -, hi, hset, rfl⟩
  · refine ⟨?_, expected_notify h.expected rfl⟩
    show Bookkeeping s.server ((insert fd s.worker.fds).erase fd)
    rw [Finset.erase_insert hnew]
    exact h.books
  · have hsome := freeSlot_isSome h.books hcount
    rw [SelectState.open_server] at hnone
    rw [hnone] at hsome
    cases hsome
  · exact ⟨h.books.add (fd_of_freeSlot hi) hpos hnew hset, expected_notify h.expected rfl⟩

/-- Removing a client after, at most, its own descriptor was closed. -/
theorem InOrder.removeClient {s t : SelectState} {fds : Finset Int} {i : Fin maxClients}
    (hbooks : Bookkeeping s.server fds) (hevents : ∀ e ∈ s.events, e.isUnexpected = false)
    (hfds : ∀ fd ∈ fds, fd ≠ s.server.fd i → fd ∈ s.worker.fds) (hi : 0 ≤ s.server.fd i)
    (h : removeClientFromSelect i s = .ok t) : InOrder t := by
  obtain ⟨m, hclear, rfl⟩ := removeClient_spec hi h
  refine ⟨hbooks.remove hi hclear ?_, expected_notify hevents rfl⟩
  intro fd hfd hne
  exact Finset.mem_erase_of_ne_of_mem hne (hfds fd hfd hne)

theorem InOrder.checkIdle {s t : SelectState} (h : InOrder s) {now : Int} {i : Fin maxClients}
    (hcheck : checkIdleClient now s i = .ok t) : InOrder t := by
  unfold checkIdleClient at hcheck
  split at hcheck
  · next hcond =>
    exact InOrder.removeClient h.books h.expected (fun _ hfd _ => hfd) hcond.1.le hcheck
  · cases hcheck
    exact h

theorem InOrder.listen_inRange {s : SelectState} (h : InOrder s) :
    0 ≤ s.server.listenFd ∧ s.server.listenFd < fdSetSize := by
  apply s.server.masterFds.inRange
  rw [h.books.master]
  exact Finset.mem_insert_self _ _

theorem InOrder.fd_inRange {s : SelectState} (h : InOrder s) {i : Fin maxClients}
    (hi : 0 ≤ s.server.fd i) : 0 ≤ s.server.fd i ∧ s.server.fd i < fdSetSize := by
  apply s.server.masterFds.inRange
  rw [h.books.master]
  exact Finset.mem_insert_of_mem (held_of_used hi)

theorem InOrder.acceptNew_eq {s : SelectState} (h : InOrder s) (turn : Turn) :
    acceptNewClient turn s =
      if s.server.listenFd ∈ s.server.readFds.fds then
        match turn.accept with
        | none => .ok s
        | some fd => (addClientToSelect fd turn.now (s.open_ fd)).map Prod.snd
      else .ok s := by
  unfold acceptNewClient
  rw [FdSet.isSet_of_inRange h.listen_inRange]
  simp only [Bind.bind, Except.bind, decide_eq_true_eq]
  refine if_congr Iff.rfl ?_ rfl
  cases turn.accept with
  | none => rfl
  | some fd =>
    dsimp only
    cases addClientToSelect fd turn.now (s.open_ fd) <;> rfl

theorem InOrder.serveIfReady_eq {s : SelectState} (h : InOrder s) (homeDir : Bytes) (turn : Turn)
    (i : Fin maxClients) :
    MinhServer.serveIfReady homeDir turn s i =
      if 0 < s.server.fd i ∧ s.server.fd i ∈ s.server.readFds.fds then
        serveClient homeDir (turn.visit i) s i
      else .ok s := by
  unfold MinhServer.serveIfReady
  by_cases hpos : 0 < s.server.fd i
  · rw [FdSet.isSet_of_inRange (h.fd_inRange hpos.le)]
    simp only [Bind.bind, Except.bind, decide_eq_true_eq, hpos, if_true, true_and]
  · rw [if_neg hpos, if_neg fun hboth => hpos hboth.1]

theorem InOrder.acceptNew {s t : SelectState} (h : InOrder s) {turn : Turn}
    (hfresh : ∀ fd ∈ turn.accept, 0 < fd ∧ fd ∉ s.worker.fds)
    (haccept : acceptNewClient turn s = .ok t) : InOrder t := by
  rw [h.acceptNew_eq] at haccept
  split at haccept
  · split at haccept
    · cases haccept
      exact h
    · next fd hfd =>
      obtain ⟨⟨index, u⟩, hadd, rfl⟩ := map_eq_ok.mp haccept
      obtain ⟨hpos, hnew⟩ := hfresh fd hfd
      exact h.addClient hpos hnew hadd
  · cases haccept
    exact h

/-- The handler closes the descriptor and no other client's, so the slot is cleared. -/
theorem InOrder.serve {s t : SelectState} (h : InOrder s) {homeDir : Bytes} {visit : Visit}
    {i : Fin maxClients} (hi : 0 ≤ s.server.fd i) (hserve : serveClient homeDir visit s i = .ok t) :
    InOrder t := by
  rw [serveClient_eq] at hserve
  obtain ⟨session, hsession, hserve⟩ := bind_eq_ok.mp hserve
  obtain ⟨-, hothers⟩ := serveRequests_closesOnly hsession
  exact InOrder.removeClient (s := (s.notify _).withWorker session.worker) h.books
    (expected_notify h.expected rfl) hothers.fds hi hserve

theorem InOrder.serveIfReady {s t : SelectState} (h : InOrder s) {homeDir : Bytes} {turn : Turn}
    {i : Fin maxClients} (hserve : serveIfReady homeDir turn s i = .ok t) : InOrder t := by
  rw [h.serveIfReady_eq] at hserve
  split at hserve
  · next hready => exact h.serve hready.1.le hserve
  · cases hserve
    exact h

/-- `accept` returns a positive descriptor that is not open. -/
def Turn.AcceptsFresh (turn : Turn) (s : SelectState) : Prop :=
  ∀ fd ∈ turn.accept, 0 < fd ∧ fd ∉ s.worker.fds

instance (turn : Turn) (s : SelectState) : Decidable (turn.AcceptsFresh s) :=
  inferInstanceAs (Decidable (∀ fd ∈ turn.accept, 0 < fd ∧ fd ∉ s.worker.fds))

/-- The worker in select mode: `initSocket`, then one call of `handleSelectEvents` after
another. A call with undefined behaviour has no next state. -/
def selectLoop (homeDir : Bytes) : Machine SelectState Turn where
  init s := ∃ mode setup before, sameNoCase mode (ascii "select") ∧ before.events = [] ∧
    initSocket mode setup before = .ok (0, s)
  step s turn := if turn.AcceptsFresh s then (handleSelectEvents homeDir turn s).toOption else none

theorem selectLoop_step {homeDir : Bytes} {s t : SelectState} {turn : Turn}
    (h : (selectLoop homeDir).step s turn = some t) :
    turn.AcceptsFresh s ∧ handleSelectEvents homeDir turn s = .ok t := by
  unfold selectLoop at h
  dsimp only at h
  split at h
  · next hfresh =>
    cases hcall : handleSelectEvents homeDir turn s with
    | error fault =>
      rw [hcall] at h
      cases h
    | ok u =>
      rw [hcall] at h
      cases h
      exact ⟨hfresh, rfl⟩
  · cases h

theorem ServerState.listening_eq {server server' : ServerState} {sockfd : Int}
    (h : server.listening sockfd = .ok server') :
    (0 ≤ sockfd ∧ sockfd < fdSetSize) ∧ server'.listenFd = sockfd ∧ server'.maxFd = sockfd ∧
      server'.masterFds.fds = {sockfd} ∧ server'.clientCount = 0 ∧ ∀ i, server'.fd i = -1 := by
  obtain ⟨m, hset, h⟩ := bind_eq_ok.mp h
  rw [Except.ok.injEq] at h
  obtain ⟨hrange, hm⟩ := FdSet.set_eq_ok hset
  rw [← h]
  exact ⟨hrange, rfl, rfl, hm, rfl, fun _ => rfl⟩

theorem ServerState.clientFds_empty {server : ServerState} (h : ∀ i, server.fd i = -1) :
    server.clientFds = ∅ := by
  ext fd
  simp only [ServerState.clientFds, mem_held, Finset.notMem_empty, iff_false]
  rintro ⟨hfd, i, rfl⟩
  have := h i
  omega

theorem Bookkeeping.listening {server server' : ServerState} {sockfd : Int} {fds : Finset Int}
    (h : server.listening sockfd = .ok server') : Bookkeeping server' (insert sockfd fds) := by
  obtain ⟨hrange, hlisten, hmax, hmaster, hcount, hfd⟩ := ServerState.listening_eq h
  have hfree : ∀ i, ¬ 0 ≤ server'.fd i := fun i => by
    have := hfd i
    omega
  have hheld : server'.clientFds = ∅ := ServerState.clientFds_empty hfd
  have hslots : server'.clientSlots = ∅ := by
    ext i
    simp only [ServerState.clientSlots, mem_occupied, Finset.notMem_empty, iff_false]
    exact hfree i
  exact {
    positive := fun i hi => absurd hi (hfree i)
    distinct := fun i _ hi _ => absurd hi (hfree i)
    clients_ne_listen := by simp [hheld]
    clients_open := by simp [hheld]
    listen_open := by simp [hlisten]
    master := by simp [hmaster, hheld, hlisten]
    count := by rw [hslots, hcount]; rfl
    max_le := by
      rw [hmaster, hmax]
      intro fd hfd
      rw [Finset.mem_singleton.mp hfd]
    max_inRange := by
      rw [hmax]
      exact hrange.2 }

theorem InOrder.initSocket {mode : Bytes} {setup : SocketSetup} {before s : SelectState}
    (hmode : sameNoCase mode (ascii "select")) (hevents : before.events = [])
    (h : initSocket mode setup before = .ok (0, s)) : InOrder s := by
  obtain ⟨sockfd, -, hserver, hworker, hsame⟩ := initSocket_select hmode h
  refine ⟨?_, by simp [hsame, hevents]⟩
  rw [hworker]
  exact Bookkeeping.listening hserver

/-- One call. -/
theorem InOrder.handleSelectEvents {homeDir : Bytes} {turn : Turn} {s t : SelectState}
    (hs : InOrder s) (hfresh : turn.AcceptsFresh s)
    (h : handleSelectEvents homeDir turn s = .ok t) : InOrder t := by
  unfold MinhServer.handleSelectEvents at h
  obtain ⟨v, hv, h⟩ := bind_eq_ok.mp h
  obtain rfl : s = v := Except.ok.inj (hs.purge_watched.symm.trans hv)
  have hcopied := hs.withReadFds s.server.masterFds
  dsimp only at h
  split at h
  · cases h
    exact hcopied
  · exact Ensures.of_foldlM (fun _ _ _ hu hcheck => hu.checkIdle hcheck) hcopied h
  · next fds _ =>
    obtain ⟨u, hu, h⟩ := bind_eq_ok.mp h
    have hready := hs.withReadFds (s.server.masterFds.keep fds)
    exact Ensures.of_foldlM (fun _ _ _ hv hserve => hv.serveIfReady hserve)
      (hready.acceptNew hfresh hu) h

/-- The rule for a call: what holds of a table in order, and is kept when a client comes in, is
served or leaves, holds after the call. -/
theorem InOrder.call_rule {I : SelectState → Prop} {homeDir : Bytes} {turn : Turn}
    {s t : SelectState} (hs : InOrder s) (hfresh : turn.AcceptsFresh s)
    (h : MinhServer.handleSelectEvents homeDir turn s = .ok t) (start : I s)
    (read : ∀ u readFds, I u → I (u.withServer { u.server with readFds := readFds }))
    (remove : ∀ u v (i : Fin maxClients), InOrder u → I u → 0 ≤ u.server.fd i →
      removeClientFromSelect i u = .ok v → I v)
    (serve : ∀ u v i, InOrder u → I u → 0 ≤ u.server.fd i →
      serveClient homeDir (turn.visit i) u i = .ok v → I v)
    (add : ∀ u v fd index, InOrder u → I u → 0 < fd → fd ∉ u.worker.fds →
      addClientToSelect fd turn.now (u.open_ fd) = .ok (index, v) → I v) : I t := by
  have hidle : ∀ u i v, InOrder u ∧ I u → checkIdleClient turn.now u i = .ok v →
      InOrder v ∧ I v := by
    rintro u i v ⟨hu, hkept⟩ hcheck
    refine ⟨hu.checkIdle hcheck, ?_⟩
    unfold checkIdleClient at hcheck
    split at hcheck
    · next hcond => exact remove u v i hu hkept hcond.1.le hcheck
    · cases hcheck
      exact hkept
  have hserve : ∀ u i v, InOrder u ∧ I u → MinhServer.serveIfReady homeDir turn u i = .ok v →
      InOrder v ∧ I v := by
    rintro u i v ⟨hu, hkept⟩ hready
    refine ⟨hu.serveIfReady hready, ?_⟩
    rw [hu.serveIfReady_eq] at hready
    split at hready
    · next hcond => exact serve u v i hu hkept hcond.1.le hready
    · cases hready
      exact hkept
  have haccept : ∀ u v, InOrder u → I u → turn.AcceptsFresh u → acceptNewClient turn u = .ok v →
      I v := by
    intro u v hu hkept hnew hstep
    rw [hu.acceptNew_eq] at hstep
    split at hstep
    · split at hstep
      · cases hstep
        exact hkept
      · next fd hfd =>
        obtain ⟨⟨index, w⟩, hadd, rfl⟩ := map_eq_ok.mp hstep
        obtain ⟨hpos, hclosed⟩ := hnew fd hfd
        exact add u w fd index hu hkept hpos hclosed hadd
    · cases hstep
      exact hkept
  unfold MinhServer.handleSelectEvents at h
  obtain ⟨v, hv, h⟩ := bind_eq_ok.mp h
  obtain rfl : s = v := Except.ok.inj (hs.purge_watched.symm.trans hv)
  dsimp only at h
  split at h
  · cases h
    exact read s _ start
  · exact (Ensures.of_foldlM hidle ⟨hs.withReadFds _, read s _ start⟩ h).2
  · next fds _ =>
    obtain ⟨u, hu, h⟩ := bind_eq_ok.mp h
    have hready := hs.withReadFds (s.server.masterFds.keep fds)
    have hkept := read s (s.server.masterFds.keep fds) start
    exact (Ensures.of_foldlM hserve
      ⟨hready.acceptNew hfresh hu, haccept _ u hready hkept hfresh hu⟩ h).2

theorem inOrder_invariant (homeDir : Bytes) :
    (selectLoop homeDir).Invariant (fun _ _ => True) InOrder where
  init := by
    rintro s ⟨mode, setup, before, hmode, hevents, h⟩
    exact InOrder.initSocket hmode hevents h
  step := by
    intro s turn t hs _ h
    unfold selectLoop at h
    dsimp only at h
    split at h
    · next hfresh =>
      cases hcall : MinhServer.handleSelectEvents homeDir turn s with
      | error fault =>
        rw [hcall] at h
        cases h
      | ok u =>
        rw [hcall] at h
        cases h
        exact hs.handleSelectEvents hfresh hcall
    · cases h

/-- After every call: the clients' descriptors are distinct, open and not the listening one,
`master_fds` and `client_count` say the same, nothing is dropped from `master_fds`, a table
below the limit has a free slot, and a refused connection changes nothing. -/
theorem select_bookkeeping (homeDir : Bytes) (s : SelectState)
    (h : (selectLoop homeDir).Reachable s) :
    Bookkeeping s.server s.worker.fds ∧ s.server.clientCount ≤ maxClients ∧
      (∀ e ∈ s.events, e.isUnexpected = false) ∧
      purgeMasterFds s.server.watched s = .ok s ∧
      (s.server.clientCount < maxClients → (freeSlot s.server).isSome) ∧
      ∀ (u v : SelectState) (fd now : Int), fd ∉ u.worker.fds →
        addClientToSelect fd now (u.open_ fd) = .ok (none, v) →
        v.server = u.server ∧ v.worker.fds = u.worker.fds := by
  have hs : InOrder s := (inOrder_invariant homeDir).holds h
  refine ⟨hs.books, ?_, hs.expected, hs.purge_watched, freeSlot_isSome hs.books,
    fun _ _ _ _ => addClientToSelect_refused⟩
  have hcard : s.server.clientSlots.card ≤ Fintype.card (Fin maxClients) := Finset.card_le_univ _
  rw [Fintype.card_fin] at hcard
  rw [hs.books.count]
  exact_mod_cast hcard

theorem init_started (homeDir : Bytes) : (selectLoop homeDir).init (startedIn (ascii "select")) :=
  ⟨_, _, standardState, by decide +kernel, rfl, initSocket_standard (ascii "select")⟩

/-- A client connects, and is served while a second one connects. -/
def twoClients (visit : Visit) : List Turn :=
  [⟨.ready {3}, some 4, 100, fun _ => visit⟩, ⟨.ready {3, 4}, some 5, 101, fun _ => visit⟩]

theorem exists_two_clients : ∃ s : SelectState,
    ((selectLoop (ascii "./www")).startingAt (startedIn (ascii "select"))).Reachable s ∧
      s.events = [.connected 0 4, .connected 1 5, .served 0 4, .disconnected 0 4] ∧
      s.worker.log = [.setTimeout 4 30, .setTimeout 5 30, .setTimeout 4 30, .recv 4, .close 4,
        .close 4] := by
  let visit : Visit := ⟨.ofSegments [], [], ⟨fun _ => false, fun _ => none⟩⟩
  have hrun : (((selectLoop (ascii "./www")).startingAt (startedIn (ascii "select"))).run
      (fun _ _ => True) (startedIn (ascii "select")) (twoClients visit)).map
        (fun s => (s.events, s.worker.log)) =
      some ([.connected 0 4, .connected 1 5, .served 0 4, .disconnected 0 4],
        [.setTimeout 4 30, .setTimeout 5 30, .setTimeout 4 30, .recv 4, .close 4, .close 4]) := by
    decide +kernel
  obtain ⟨s, hs, hresult⟩ := Option.map_eq_some_iff.mp hrun
  obtain ⟨hevents, hlog⟩ := Prod.mk.inj hresult
  exact ⟨s, Machine.ReachableBy.run (.init rfl) hs, hevents, hlog⟩

/-- A client is accepted, and served while a second one is; only the second stays. -/
theorem select_bookkeeping_two_clients :
    ∃ s : SelectState, s.events = [.connected 0 4, .connected 1 5, .served 0 4, .disconnected 0 4] ∧
      Bookkeeping s.server s.worker.fds := by
  obtain ⟨s, hrun, hevents, -⟩ := exists_two_clients
  have hreach : (selectLoop (ascii "./www")).Reachable s :=
    .of_startingAt (.init (init_started _)) hrun
  exact ⟨s, hevents, (select_bookkeeping _ s hreach).1⟩

end MinhServer
