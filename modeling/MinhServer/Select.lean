import MinhServer.Library.Machine
import MinhServer.Library.Slots
import MinhServer.Server

namespace MinhServer
open CString Wire

/-- `MAX_CLIENTS` -/
abbrev maxClients : Nat := 1024

/-- `FD_SETSIZE` -/
abbrev fdSetSize : Int := 1024

/-- The descriptors whose bits are set. -/
structure FdSet where
  fds : Finset Int
  inRange : ∀ fd ∈ fds, 0 ≤ fd ∧ fd < fdSetSize

namespace FdSet
variable {s t : FdSet} {fd : Int}

/-- `FD_ZERO` -/
def zero : FdSet := ⟨∅, by simp⟩

/-- `FD_SET`; there is no bit for a descriptor out of range. -/
def set (s : FdSet) (fd : Int) : Except Fault FdSet :=
  if h : 0 ≤ fd ∧ fd < fdSetSize then
    .ok ⟨insert fd s.fds, by
      intro x hx
      exact (Finset.mem_insert.mp hx).elim (fun he => he ▸ h) (s.inRange x)⟩
  else .error .overflow

/-- `FD_CLR` -/
def clear (s : FdSet) (fd : Int) : Except Fault FdSet :=
  if 0 ≤ fd ∧ fd < fdSetSize then
    .ok ⟨s.fds.erase fd, fun x hx => s.inRange x (Finset.mem_of_mem_erase hx)⟩
  else .error .overflow

/-- `FD_ISSET` -/
def isSet (s : FdSet) (fd : Int) : Except Fault Bool :=
  if 0 ≤ fd ∧ fd < fdSetSize then .ok (fd ∈ s.fds) else .error .overflow

/-- What `select` leaves of a set: the descriptors that are ready. -/
def keep (s : FdSet) (ready : Finset Int) : FdSet :=
  ⟨s.fds ∩ ready, fun x hx => s.inRange x (Finset.mem_inter.mp hx).1⟩

theorem set_eq_ok (h : s.set fd = .ok t) :
    (0 ≤ fd ∧ fd < fdSetSize) ∧ t.fds = insert fd s.fds := by
  unfold set at h
  split at h
  · next hfd =>
    rw [Except.ok.injEq] at h
    exact ⟨hfd, h ▸ rfl⟩
  · cases h

theorem clear_eq_ok (h : s.clear fd = .ok t) : t.fds = s.fds.erase fd := by
  unfold clear at h
  split at h
  · rw [Except.ok.injEq] at h
    rw [← h]
  · cases h

theorem isSet_of_inRange (h : 0 ≤ fd ∧ fd < fdSetSize) : s.isSet fd = .ok (fd ∈ s.fds) := if_pos h

end FdSet

structure ClientInfo where
  fd : Int
  connectTime : Int
  deriving DecidableEq

structure ServerState where
  listenFd : Int
  clients : Fin maxClients → ClientInfo
  clientCount : Int
  maxFd : Int
  readFds : FdSet
  masterFds : FdSet

/-- `ServerState server_state = {0};` -/
def ServerState.zeroed : ServerState where
  listenFd := 0
  clients := fun _ => ⟨0, 0⟩
  clientCount := 0
  maxFd := 0
  readFds := .zero
  masterFds := .zero

/-- The descriptor in a slot; a free slot holds a negative one. -/
def ServerState.fd (server : ServerState) (i : Fin maxClients) : Int := (server.clients i).fd

/-- What the loop prints about its table, and the clients it serves. -/
inductive Event where
  | badFd (fd : Int)
  | limitReached (fd : Int)
  | noFreeSlot (fd : Int)
  | connected (slot : Fin maxClients) (fd : Int)
  | served (slot : Fin maxClients) (fd : Int)
  | disconnected (slot : Fin maxClients) (fd : Int)
  deriving DecidableEq

structure SelectState where
  server : ServerState
  worker : Worker
  events : List Event

namespace SelectState

def notify (s : SelectState) (e : Event) : SelectState := { s with events := s.events ++ [e] }

def withServer (s : SelectState) (server : ServerState) : SelectState := { s with server := server }

def withWorker (s : SelectState) (w : Worker) : SelectState := { s with worker := w }

def close (s : SelectState) (fd : Int) : SelectState := s.withWorker (s.worker.close fd)

/-- The descriptor that `accept` or `socket` returns is open. -/
def open_ (s : SelectState) (fd : Int) : SelectState :=
  s.withWorker { s.worker with fds := insert fd s.worker.fds }

variable (s : SelectState) (server : ServerState) (fd : Int)

@[simp] theorem open_server : (s.open_ fd).server = s.server := rfl

end SelectState

def freeSlot (server : ServerState) : Option (Fin maxClients) :=
  (List.finRange maxClients).find? fun i => server.fd i < 0

def ServerState.withClient (server : ServerState) (i : Fin maxClients) (client : ClientInfo)
    (masterFds : FdSet) : ServerState :=
  { server with
    clients := Function.update server.clients i client
    masterFds := masterFds
    maxFd := if server.maxFd < client.fd then client.fd else server.maxFd
    clientCount := server.clientCount + 1 }

def addClientToSelect (clientFd now : Int) (s : SelectState) :
    Except Fault (Option (Fin maxClients) × SelectState) :=
  if maxClients ≤ s.server.clientCount then
    .ok (none, (s.notify (.limitReached clientFd)).close clientFd)
  else
    match freeSlot s.server with
    | none => .ok (none, (s.notify (.noFreeSlot clientFd)).close clientFd)
    | some index => do
      let masterFds ← s.server.masterFds.set clientFd
      let server := s.server.withClient index ⟨clientFd, now⟩ masterFds
      let s := s.withWorker (s.worker.record (.setTimeout clientFd 30))
      .ok (some index, (s.withServer server).notify (.connected index clientFd))

/-- What is left when a client was put into slot `i`. -/
def SelectState.admitted (s : SelectState) (i : Fin maxClients) (clientFd now : Int)
    (masterFds : FdSet) : SelectState :=
  ((s.withWorker (s.worker.record (.setTimeout clientFd 30))).withServer
    (s.server.withClient i ⟨clientFd, now⟩ masterFds)).notify (.connected i clientFd)

/-- A connection is refused and closed, or put into the first free slot. -/
theorem addClient_cases {s t : SelectState} {clientFd now : Int} {index : Option (Fin maxClients)}
    (h : addClientToSelect clientFd now s = .ok (index, t)) :
    (index = none ∧ (maxClients ≤ s.server.clientCount ∧
          t = (s.notify (.limitReached clientFd)).close clientFd ∨
        s.server.clientCount < maxClients ∧ freeSlot s.server = none ∧
          t = (s.notify (.noFreeSlot clientFd)).close clientFd)) ∨
      ∃ i masterFds, index = some i ∧ s.server.clientCount < maxClients ∧
        freeSlot s.server = some i ∧ s.server.masterFds.set clientFd = .ok masterFds ∧
        t = s.admitted i clientFd now masterFds := by
  unfold addClientToSelect at h
  split at h
  · next hcount =>
    cases h
    exact .inl ⟨rfl, .inl ⟨hcount, rfl⟩⟩
  · next hcount =>
    split at h
    · next hnone =>
      cases h
      exact .inl ⟨rfl, .inr ⟨not_le.mp hcount, hnone, rfl⟩⟩
    · next i hi =>
      obtain ⟨masterFds, hset, h⟩ := bind_eq_ok.mp h
      cases h
      exact .inr ⟨i, masterFds, rfl, not_le.mp hcount, hi, hset, rfl⟩

/-- The largest of `listen_fd` and the descriptors in the table. -/
def ServerState.largestFd (server : ServerState) : Int :=
  (List.finRange maxClients).foldl
    (fun maxFd i => if maxFd < server.fd i then server.fd i else maxFd) server.listenFd

/-- The table is searched for the largest descriptor before the slot is cleared. -/
def ServerState.withoutClient (server : ServerState) (i : Fin maxClients) (masterFds : FdSet) :
    ServerState :=
  { server with
    masterFds := masterFds
    maxFd := if server.fd i = server.maxFd then server.largestFd else server.maxFd
    clients := Function.update server.clients i { server.clients i with fd := -1 }
    clientCount := server.clientCount - 1 }

def removeClientFromSelect (clientIndex : Int) (s : SelectState) : Except Fault SelectState :=
  if h : clientIndex < 0 ∨ (maxClients : Int) ≤ clientIndex then .ok s
  else
    let i : Fin maxClients := ⟨clientIndex.toNat, by omega⟩
    if s.server.fd i < 0 then .ok s
    else do
      let masterFds ← s.server.masterFds.clear (s.server.fd i)
      let closed := (s.notify (.disconnected i (s.server.fd i))).close (s.server.fd i)
      .ok (closed.withServer (s.server.withoutClient i masterFds))

/-- A slot in use is cleared and its descriptor closed. -/
theorem removeClient_spec {s t : SelectState} {i : Fin maxClients} (hi : 0 ≤ s.server.fd i)
    (h : removeClientFromSelect i s = .ok t) :
    ∃ masterFds, s.server.masterFds.clear (s.server.fd i) = .ok masterFds ∧
      t = ((s.notify (.disconnected i (s.server.fd i))).close (s.server.fd i)).withServer
        (s.server.withoutClient i masterFds) := by
  unfold removeClientFromSelect at h
  rw [dif_neg (by omega)] at h
  have hindex : (⟨(i : Int).toNat, by omega⟩ : Fin maxClients) = i := by
    ext
    simp
  dsimp only at h
  rw [hindex, if_neg (by omega)] at h
  obtain ⟨masterFds, hclear, h⟩ := bind_eq_ok.mp h
  cases h
  exact ⟨masterFds, hclear, rfl⟩

theorem exists_removed {s : SelectState} {i : Fin maxClients} (hi : 0 ≤ s.server.fd i)
    (hrange : s.server.fd i < fdSetSize) : ∃ t, removeClientFromSelect i s = .ok t := by
  have hindex : (⟨(i : Int).toNat, by omega⟩ : Fin maxClients) = i := by
    ext
    simp
  unfold removeClientFromSelect
  rw [dif_neg (by omega)]
  dsimp only
  rw [hindex, if_neg (by omega), FdSet.clear, if_pos ⟨hi, hrange⟩]
  exact ⟨_, rfl⟩

theorem removeClient_cases {s t : SelectState} {clientIndex : Int}
    (h : removeClientFromSelect clientIndex s = .ok t) :
    (t = s ∧ ∀ i : Fin maxClients, clientIndex = i → s.server.fd i < 0) ∨
      ∃ i : Fin maxClients, clientIndex = i ∧ 0 ≤ s.server.fd i := by
  by_cases hslot : ∃ i : Fin maxClients, clientIndex = i ∧ 0 ≤ s.server.fd i
  · exact .inr hslot
  · have hfree : ∀ i : Fin maxClients, clientIndex = i → s.server.fd i < 0 := fun i hi =>
      not_le.mp fun hfd => hslot ⟨i, hi, hfd⟩
    refine .inl ⟨?_, hfree⟩
    unfold removeClientFromSelect at h
    split at h
    · cases h
      rfl
    · next hrange =>
      have hfd := hfree ⟨clientIndex.toNat, by omega⟩ (by simp; omega)
      dsimp only at h
      rw [if_pos hfd] at h
      cases h
      rfl

/-- Outcomes of the system calls: the socket that could be bound, whether it became
non-blocking, and whether it listens. -/
structure SocketSetup where
  sockfd : Option Int
  nonblocking : Bool
  listens : Bool

/-- The select server's part of `initSocket`: one socket is watched and every slot is free. -/
def ServerState.listening (server : ServerState) (sockfd : Int) : Except Fault ServerState := do
  let masterFds ← FdSet.zero.set sockfd
  .ok { server with
    listenFd := sockfd
    clientCount := 0
    maxFd := sockfd
    masterFds := masterFds
    clients := fun i => { server.clients i with fd := -1 } }

/-- From the bound socket on. -/
def initSocket (mode : Bytes) (setup : SocketSetup) (s : SelectState) :
    Except Fault (Int × SelectState) :=
  match setup.sockfd with
  | none => .ok (-1, s)
  | some sockfd => do
    let s := s.open_ sockfd
    if sameNoCase mode (ascii "select") ∧ setup.nonblocking = false then
      .ok (-1, s.close sockfd)
    else do
      let server ←
        if sameNoCase mode (ascii "select") then s.server.listening sockfd else .ok s.server
      let s := s.withServer server
      if setup.listens then .ok (0, s) else .ok (-1, s.close sockfd)

/-- In select mode a successful `initSocket` leaves a listening socket and an empty table. -/
theorem initSocket_select {mode : Bytes} {setup : SocketSetup} {before s : SelectState}
    (hmode : sameNoCase mode (ascii "select")) (h : initSocket mode setup before = .ok (0, s)) :
    ∃ sockfd, setup.sockfd = some sockfd ∧ before.server.listening sockfd = .ok s.server ∧
      s.worker = (before.open_ sockfd).worker ∧ s.events = before.events := by
  unfold initSocket at h
  split at h
  · cases h
  · next sockfd hsockfd =>
    dsimp only at h
    rw [if_pos hmode] at h
    split at h
    · cases h
    · obtain ⟨server, hserver, h⟩ := bind_eq_ok.mp h
      split at h
      · cases h
        exact ⟨sockfd, hsockfd, hserver, rfl, rfl⟩
      · cases h

/-- A process with the standard descriptors only. -/
def standardState : SelectState := ⟨.zeroed, { fds := {0, 1, 2} }, []⟩

/-- The process after it, with the listening socket on descriptor 3. -/
def startedIn (mode : Bytes) : SelectState :=
  match initSocket mode ⟨some 3, true, true⟩ standardState with
  | .ok (_, s) => s
  | .error _ => standardState

theorem initSocket_standard (mode : Bytes) :
    initSocket mode ⟨some 3, true, true⟩ standardState = .ok (0, startedIn mode) := by
  unfold startedIn initSocket
  by_cases hmode : sameNoCase mode (ascii "select")
  · simp only [hmode]
    rfl
  · simp only [hmode]
    rfl

inductive SelectResult where
  | failed
  | timeout
  | ready (fds : Finset Int)

/-- What one client sends, what `send` to it yields, and the files while it is served. -/
structure Visit where
  peer : Peer Byte
  sends : List (Option Nat)
  disk : Disk

/-- What happens during one call; `accept` is the descriptor it returns, if it does not fail. -/
structure Turn where
  select : SelectResult
  accept : Option Int
  now : Int
  visit : Fin maxClients → Visit

/-- The loop over the descriptors up to `max_fd`: the closed ones are dropped. -/
def purgeMasterFds : List Nat → SelectState → Except Fault SelectState
  | [], s => .ok s
  | i :: is, s => do
    if (← s.server.masterFds.isSet i) ∧ (i : Int) ∉ s.worker.fds then do
      let masterFds ← s.server.masterFds.clear i
      purgeMasterFds is
        ((s.notify (.badFd i)).withServer { s.server with masterFds := masterFds })
    else purgeMasterFds is s

/-- The descriptors from 0 to `max_fd`. -/
def ServerState.watched (server : ServerState) : List Nat := List.range (server.maxFd + 1).toNat

def checkIdleClient (now : Int) (s : SelectState) (i : Fin maxClients) :
    Except Fault SelectState :=
  if 0 < s.server.fd i ∧ 30 < now - (s.server.clients i).connectTime then
    removeClientFromSelect i s
  else .ok s

def checkIdleConnections (now : Int) (s : SelectState) : Except Fault SelectState :=
  (List.finRange maxClients).foldlM (checkIdleClient now) s

def acceptNewClient (turn : Turn) (s : SelectState) : Except Fault SelectState := do
  if ← s.server.readFds.isSet s.server.listenFd then
    match turn.accept with
    | none => .ok s
    | some clientFd => do
      let (_, s) ← addClientToSelect clientFd turn.now (s.open_ clientFd)
      .ok s
  else .ok s

/-- Serve the client of a slot; if that closed its descriptor the slot is cleared. -/
def serveClient (homeDir : Bytes) (visit : Visit) (s : SelectState) (i : Fin maxClients) :
    Except Fault SelectState := do
  let clientFd := s.server.fd i
  let w := { s.worker with sends := visit.sends }
  let session ← handleOneClientRequest .nonblocking clientFd homeDir visit.disk visit.peer w
  let s := (s.notify (.served i clientFd)).withWorker session.worker
  if clientFd ∈ session.worker.fds then .ok s else removeClientFromSelect i s

def serveIfReady (homeDir : Bytes) (turn : Turn) (s : SelectState) (i : Fin maxClients) :
    Except Fault SelectState :=
  if 0 < s.server.fd i then do
    if ← s.server.readFds.isSet (s.server.fd i) then serveClient homeDir (turn.visit i) s i
    else .ok s
  else .ok s

def handleSelectEvents (homeDir : Bytes) (turn : Turn) (s : SelectState) :
    Except Fault SelectState := do
  let s ← purgeMasterFds s.server.watched s
  let s := s.withServer { s.server with readFds := s.server.masterFds }
  match turn.select with
  | .failed => .ok s
  | .timeout => checkIdleConnections turn.now s
  | .ready fds => do
    let s := s.withServer { s.server with readFds := s.server.readFds.keep fds }
    let s ← acceptNewClient turn s
    (List.finRange maxClients).foldlM (serveIfReady homeDir turn) s

/-- The handler closes the connection before it returns, so the slot is always removed. -/
theorem serveClient_eq (homeDir : Bytes) (visit : Visit) (s : SelectState) (i : Fin maxClients) :
    serveClient homeDir visit s i =
      handleOneClientRequest .nonblocking (s.server.fd i) homeDir visit.disk visit.peer
          { s.worker with sends := visit.sends } >>= fun session =>
        removeClientFromSelect i
          ((s.notify (.served i (s.server.fd i))).withWorker session.worker) := by
  unfold serveClient
  dsimp only
  cases hsession : handleOneClientRequest .nonblocking (s.server.fd i) homeDir visit.disk
      visit.peer { s.worker with sends := visit.sends } with
  | error fault => rfl
  | ok session =>
    have hclosed := (serveRequests_closesOnly hsession).1
    exact if_neg hclosed

end MinhServer
