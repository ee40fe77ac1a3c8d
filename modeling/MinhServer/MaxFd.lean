import Mathlib.Order.Bounds.Basic
import MinhServer.Bookkeeping

namespace MinhServer
open CString Slots

/-- The descriptors that `select` is to watch. -/
def ServerState.watchedFds (server : ServerState) : Finset Int :=
  insert server.listenFd server.clientFds

def MaxExact (server : ServerState) : Prop := IsGreatest server.watchedFds server.maxFd

inductive TableCall where
  | add (clientFd now : Int)
  | remove (clientIndex : Int)
  deriving DecidableEq

/-- `initSocket` in select mode and then calls on the table, in any order; what is added is an
open descriptor that is not watched yet. -/
def tableCalls : Machine SelectState TableCall where
  init s := ∃ mode setup before, sameNoCase mode (ascii "select") ∧
    initSocket mode setup before = .ok (0, s)
  step s
    | .add clientFd now =>
      if 0 ≤ clientFd ∧ clientFd ∉ s.server.watchedFds then
        ((addClientToSelect clientFd now (s.open_ clientFd)).map Prod.snd).toOption
      else none
    | .remove clientIndex => (removeClientFromSelect clientIndex s).toOption

/-- The slot that is cleared does not hold the largest descriptor. -/
def KeepsMax (s : SelectState) (call : TableCall) : Prop :=
  ∀ i : Fin maxClients, call = .remove i → s.server.fd i ≠ s.server.maxFd

instance (s : SelectState) (call : TableCall) : Decidable (KeepsMax s call) :=
  inferInstanceAs (Decidable (∀ i : Fin maxClients, call = .remove i → s.server.fd i ≠ s.server.maxFd))

/-- No descriptor is watched twice, and `max_fd` is the largest. -/
structure ExactTable (server : ServerState) : Prop where
  distinct : Distinct (fun fd : Int => 0 ≤ fd) server.fd
  clients_ne_listen : server.listenFd ∉ server.clientFds
  listen_nonneg : 0 ≤ server.listenFd
  exact : MaxExact server

section Table
variable {s t : SelectState} {server server' : ServerState} {i : Fin maxClients} {m : FdSet}

theorem ExactTable.listening {sockfd : Int} (h : server.listening sockfd = .ok server') :
    ExactTable server' := by
  obtain ⟨hrange, hlisten, hmax, -, -, hfd⟩ := ServerState.listening_eq h
  have hheld : server'.clientFds = ∅ := ServerState.clientFds_empty hfd
  have hwatched : server'.watchedFds = {sockfd} := by
    rw [ServerState.watchedFds, hheld, hlisten, insert_empty_eq]
  refine ⟨fun j _ hj => ?_, by simp [hheld], hlisten ▸ hrange.1, ?_⟩
  · have := hfd j
    omega
  · rw [MaxExact, hwatched, hmax, Finset.coe_singleton]
    exact isGreatest_singleton

theorem ExactTable.withClient (h : ExactTable server) (hfree : server.fd i < 0)
    {client : ClientInfo} (hfd : 0 ≤ client.fd) (hnew : client.fd ∉ server.watchedFds) :
    ExactTable (server.withClient i client m) := by
  have hheld := ServerState.clientFds_withClient hfree hfd m
  rw [ServerState.watchedFds, Finset.mem_insert, not_or] at hnew
  have hwatched : (server.withClient i client m).watchedFds = insert client.fd server.watchedFds := by
    rw [ServerState.watchedFds, hheld, ServerState.watchedFds]
    exact Finset.insert_comm _ _ _
  constructor
  · rw [ServerState.fd_withClient]
    apply h.distinct.put
    intro j _ heq
    exact hnew.2 (mem_held.mpr ⟨hfd, j, heq⟩)
  · rw [hheld, Finset.mem_insert, not_or]
    exact ⟨Ne.symm hnew.1, h.clients_ne_listen⟩
  · exact h.listen_nonneg
  · have hmax : (server.withClient i client m).maxFd = max client.fd server.maxFd := by
      show (if _ then _ else _) = _
      split <;> omega
    rw [MaxExact, hwatched, hmax, Finset.coe_insert]
    exact h.exact.insert client.fd

/-- Clearing another slot leaves the largest descriptor. -/
theorem ExactTable.withoutClient (h : ExactTable server) (hne : server.fd i ≠ server.maxFd) :
    ExactTable (server.withoutClient i m) := by
  have hheld := ServerState.clientFds_withoutClient h.distinct i m
  have hmax : (server.withoutClient i m).maxFd = server.maxFd := if_neg hne
  constructor
  · rw [ServerState.fd_withoutClient]
    exact h.distinct.clear (by omega)
  · rw [hheld]
    exact fun hmem => h.clients_ne_listen (Finset.mem_of_mem_erase hmem)
  · exact h.listen_nonneg
  · obtain ⟨hmem, hle⟩ := h.exact
    rw [MaxExact, hmax, ServerState.watchedFds, hheld]
    constructor
    · rcases Finset.mem_insert.mp hmem with hlisten | hclient
      · exact Finset.mem_insert.mpr (.inl hlisten)
      · exact Finset.mem_insert_of_mem (Finset.mem_erase_of_ne_of_mem (Ne.symm hne) hclient)
    · apply upperBounds_mono_set _ hle
      exact Finset.coe_subset.mpr (Finset.insert_subset_insert _ (Finset.erase_subset _ _))

theorem not_exact_withoutClient (h : ExactTable server) (hi : 0 ≤ server.fd i)
    (heq : server.fd i = server.maxFd) : ¬ MaxExact (server.withoutClient i m) := by
  have hheld := ServerState.clientFds_withoutClient h.distinct i m
  have hmax : server.maxFd ≤ (server.withoutClient i m).maxFd := by
    show server.maxFd ≤ if _ then _ else _
    rw [if_pos heq, ← heq]
    exact (foldl_max server.fd (List.finRange maxClients) server.listenFd).2.1 i (List.mem_finRange i)
  rintro ⟨hmem, -⟩
  have hlisten : server.listenFd ≠ server.maxFd := fun hl =>
    h.clients_ne_listen (hl.trans heq.symm ▸ held_of_used hi)
  have hwatched : (server.withoutClient i m).watchedFds = server.watchedFds.erase server.maxFd := by
    rw [ServerState.watchedFds, hheld, heq, ServerState.watchedFds,
      Finset.erase_insert_of_ne hlisten]
    rfl
  rw [hwatched, Finset.mem_coe, Finset.mem_erase] at hmem
  have hle := h.exact.2 hmem.2
  exact hmem.1 (le_antisymm hle hmax)

end Table

section Runs
variable {s t : SelectState} {call : TableCall}

theorem ExactTable.add (h : ExactTable s.server) {clientFd now : Int} (hfd : 0 ≤ clientFd)
    (hnew : clientFd ∉ s.server.watchedFds) {index : Option (Fin maxClients)}
    (hadd : addClientToSelect clientFd now (s.open_ clientFd) = .ok (index, t)) :
    ExactTable t.server := by
  rcases addClient_cases hadd with ⟨-, ⟨-, rfl⟩ | ⟨-, -, rfl⟩⟩ | ⟨i, m, -, -, hi, -, rfl⟩
  · exact h
  · exact h
  · exact h.withClient (fd_of_freeSlot hi) hfd hnew

theorem keepsMax_add (s : SelectState) (clientFd now : Int) : KeepsMax s (.add clientFd now) := by
  intro i hi
  cases hi

/-- `max_fd` stays exact in just the steps that keep the largest descriptor. -/
theorem ExactTable.step (h : ExactTable s.server) (hstep : tableCalls.step s call = some t) :
    (KeepsMax s call → ExactTable t.server) ∧ (MaxExact t.server → KeepsMax s call) := by
  cases call with
  | add clientFd now =>
    dsimp only [tableCalls] at hstep
    split at hstep
    · next hnew =>
      obtain ⟨⟨index, u⟩, hadd, rfl⟩ := map_eq_ok.mp (toOption_eq_some hstep)
      exact ⟨fun _ => h.add hnew.1 hnew.2 hadd, fun _ => keepsMax_add s clientFd now⟩
    · cases hstep
  | remove clientIndex =>
    have hremove := toOption_eq_some hstep
    rcases removeClient_cases hremove with ⟨rfl, hfree⟩ | ⟨i, rfl, hi⟩
    · refine ⟨fun _ => h, fun _ i hi => ?_⟩
      have hfd := hfree i (TableCall.remove.inj hi)
      have hlisten := h.exact.2 (Finset.mem_insert_self _ _)
      have := h.listen_nonneg
      omega
    · obtain ⟨m, -, rfl⟩ := removeClient_spec hi hremove
      refine ⟨fun hkeep => h.withoutClient (hkeep i rfl), fun hexact j hj heq => ?_⟩
      obtain rfl : i = j := by
        have := TableCall.remove.inj hj
        omega
      exact not_exact_withoutClient h hi heq hexact

theorem exactTable_invariant : tableCalls.Invariant KeepsMax fun s => ExactTable s.server where
  init := by
    rintro s ⟨mode, setup, before, hmode, h⟩
    obtain ⟨sockfd, -, hserver, -⟩ := initSocket_select hmode h
    exact .listening hserver
  step := fun _ _ _ hs hkeep hstep => (hs.step hstep).1 hkeep

end Runs

theorem exists_removal (calls : List TableCall) (i : Fin maxClients) (fd : Int)
    (hrun : (tableCalls.run KeepsMax (startedIn (ascii "select")) calls).map
      (fun s => (s.server.fd i, s.server.maxFd)) = some (fd, fd)) (hrange : 0 ≤ fd ∧ fd < fdSetSize) :
    ∃ s t, tableCalls.ReachableBy KeepsMax s ∧ s.server.maxFd = fd ∧
      tableCalls.step s (.remove i) = some t ∧ ¬ KeepsMax s (.remove i) := by
  obtain ⟨s, hs, hresult⟩ := Option.map_eq_some_iff.mp hrun
  obtain ⟨hfd, hmax⟩ := Prod.mk.inj hresult
  have hinit : tableCalls.init (startedIn (ascii "select")) :=
    ⟨_, _, standardState, by decide, initSocket_standard (ascii "select")⟩
  obtain ⟨t, ht⟩ := exists_removed (hfd ▸ hrange.1) (hfd ▸ hrange.2)
  exact ⟨s, t, Machine.ReachableBy.run (.init hinit) hs, hmax, congrArg Except.toOption ht,
    fun hkeep => hkeep i rfl (hfd.trans hmax.symm)⟩

/-- As long as no call clears the slot of the largest descriptor, `max_fd` is the largest
descriptor watched; the first call that does leaves it wrong. -/
theorem maxFd_exact_iff (s : SelectState) (h : tableCalls.ReachableBy KeepsMax s) :
    MaxExact s.server ∧
      ∀ call t, tableCalls.step s call = some t → (MaxExact t.server ↔ KeepsMax s call) := by
  have hs : ExactTable s.server := exactTable_invariant.holds h
  refine ⟨hs.exact, fun call t hstep => ⟨(hs.step hstep).2, fun hkeep => ?_⟩⟩
  exact ((hs.step hstep).1 hkeep).exact

/-- Two clients come and the first one goes; when the other one goes too, `max_fd` stays its
descriptor. -/
theorem maxFd_exact_iff_removed : ∃ s t : SelectState, MaxExact s.server ∧ s.server.maxFd = 5 ∧
    tableCalls.step s (.remove 1) = some t ∧ ¬ MaxExact t.server := by
  obtain ⟨s, t, hreach, hmax, hstep, hnot⟩ := exists_removal [.add 4 0, .add 5 0, .remove 0]
    1 5 (by decide +kernel) (by decide)
  obtain ⟨hexact, hnext⟩ := maxFd_exact_iff s hreach
  exact ⟨s, t, hexact, hmax, hstep, mt (hnext _ t hstep).mp hnot⟩

/-- The only client is removed again: `max_fd` is still its descriptor. -/
theorem removed_max_stays : ¬ ∀ s, tableCalls.Reachable s → MaxExact s.server := by
  intro h
  obtain ⟨s, t, hs, -, hstep, hnot⟩ := exists_removal [.add 4 0] 0 4
    (by decide +kernel) (by decide)
  have hexact : ExactTable s.server := exactTable_invariant.holds hs
  exact hnot ((hexact.step hstep).2 (h t (.step hs.reachable trivial hstep)))

end MinhServer
