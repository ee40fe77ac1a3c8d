import MinhServer.Library.Replay
import MinhServer.Readiness

namespace MinhServer
open CString Slots Replay

/-- Which slot has which client, and the client that is being served. -/
structure Roster where
  clients : Fin maxClients → Option Int
  serving : Option (Fin maxClients × Int)

namespace Roster

def empty : Roster := ⟨fun _ => none, none⟩

/-- A client comes into the first free slot, and its descriptor is nobody else's; one is refused
when no slot is free; a client that was served leaves before anything else happens. -/
def apply (roster : Roster) : Event → Option Roster
  | .connected i fd =>
    if roster.serving = none ∧ roster.clients i = none ∧ (∀ j < i, roster.clients j ≠ none) ∧
        ∀ j, roster.clients j ≠ some fd then
      some { roster with clients := Function.update roster.clients i (some fd) }
    else none
  | .limitReached fd =>
    if roster.serving = none ∧ (∀ j, roster.clients j ≠ none) ∧
        ∀ j, roster.clients j ≠ some fd then some roster
    else none
  | .served i fd =>
    if roster.serving = none ∧ roster.clients i = some fd then
      some { roster with serving := some (i, fd) }
    else none
  | .disconnected i fd =>
    if (roster.serving = none ∨ roster.serving = some (i, fd)) ∧ roster.clients i = some fd then
      some ⟨Function.update roster.clients i none, none⟩
    else none
  | .badFd _ | .noFreeSlot _ => none

end Roster

def ServerState.roster (server : ServerState) : Roster where
  clients i := if 0 ≤ server.fd i then some (server.fd i) else none
  serving := none

def Event.isArrival : Event → Bool
  | .connected _ _ => true
  | .badFd _ | .limitReached _ | .noFreeSlot _ | .served _ _ | .disconnected _ _ => false

def Event.isDeparture : Event → Bool
  | .disconnected _ _ => true
  | .badFd _ | .limitReached _ | .noFreeSlot _ | .connected _ _ | .served _ _ => false

section Rosters
variable {server : ServerState} {fds : Finset Int} {i : Fin maxClients} {fd : Int}

theorem ServerState.roster_eq_some_iff :
    server.roster.clients i = some fd ↔ 0 ≤ fd ∧ server.fd i = fd := by
  unfold ServerState.roster
  dsimp only
  split
  · next hused =>
    rw [Option.some.injEq]
    exact ⟨fun heq => ⟨heq ▸ hused, heq⟩, fun h => h.2⟩
  · next hfree => exact iff_of_false (by simp) fun h => hfree (h.2.symm ▸ h.1)

theorem ServerState.roster_eq_none_iff : server.roster.clients i = none ↔ server.fd i < 0 := by
  unfold ServerState.roster
  dsimp only
  split
  · next hused => exact iff_of_false (by simp) (by omega)
  · next hfree => exact iff_of_true rfl (by omega)

theorem ServerState.roster_withClient {client : ClientInfo} (hfd : 0 ≤ client.fd) (m : FdSet) :
    (server.withClient i client m).roster =
      { server.roster with
        clients := Function.update server.roster.clients i (some client.fd) } := by
  unfold ServerState.roster
  rw [ServerState.fd_withClient]
  simp only [Roster.mk.injEq, and_true]
  funext j
  by_cases hj : j = i
  · subst hj
    rw [Function.update_self, Function.update_self, if_pos hfd]
  · rw [Function.update_of_ne hj, Function.update_of_ne hj]

theorem ServerState.roster_withoutClient (m : FdSet) : (server.withoutClient i m).roster =
    { server.roster with clients := Function.update server.roster.clients i none } := by
  unfold ServerState.roster
  rw [ServerState.fd_withoutClient]
  simp only [Roster.mk.injEq, and_true]
  funext j
  by_cases hj : j = i
  · subst hj
    rw [Function.update_self, Function.update_self]
    rfl
  · rw [Function.update_of_ne hj, Function.update_of_ne hj]

theorem used_of_freeSlot (h : freeSlot server = some i) {j : Fin maxClients} (hj : j < i) :
    0 ≤ server.fd j := by
  obtain ⟨-, before, after, hsplit, hbefore⟩ := List.find?_eq_some_iff_append.mp h
  have hmem : j ∈ before ++ i :: after := hsplit ▸ List.mem_finRange j
  have hsorted : (before ++ i :: after).Pairwise (· < ·) := hsplit ▸ List.pairwise_lt_finRange _
  rcases List.mem_append.mp hmem with hmem | hmem
  · have hused := hbefore j hmem
    simpa using hused
  · have hle : i ≤ j := by
      rcases List.mem_cons.mp hmem with rfl | hmem
      · exact le_rfl
      · exact (List.rel_of_pairwise_cons (List.pairwise_append.mp hsorted).2.1 hmem).le
    exact absurd hj (not_lt.mpr hle)

theorem Bookkeeping.all_used (h : Bookkeeping server fds) (hcount : maxClients ≤ server.clientCount)
    (j : Fin maxClients) : 0 ≤ server.fd j := by
  have hcard : Fintype.card (Fin maxClients) ≤ server.clientSlots.card := by
    rw [h.count] at hcount
    rw [Fintype.card_fin]
    exact_mod_cast hcount
  have hall : server.clientSlots = Finset.univ :=
    Finset.eq_univ_of_card _ (le_antisymm (Finset.card_le_univ _) hcard)
  have hmem : j ∈ server.clientSlots := hall ▸ Finset.mem_univ j
  exact mem_occupied.mp hmem

end Rosters

/-- The events reported from `s` to `t` lead from the one table to the other. -/
def SelectState.LeadsTo (s t : SelectState) : Prop :=
  Leads Roster.apply s.events s.server.roster t.events t.server.roster

section Steps
variable {s t u : SelectState} {homeDir : Bytes} {turn : Turn} {i : Fin maxClients}

theorem leadsTo_trans (h : s.LeadsTo t) (h' : t.LeadsTo u) : s.LeadsTo u := h.trans h'

theorem leadsTo_of_same (hevents : t.events = s.events)
    (hclients : t.server.clients = s.server.clients) :
    s.LeadsTo t := by
  have hroster : t.server.roster = s.server.roster := by
    unfold ServerState.roster ServerState.fd
    rw [hclients]
  rw [SelectState.LeadsTo, hevents, hroster]
  exact .refl _ _

theorem InOrder.roster_ne_new (h : InOrder s) {fd : Int} (hnew : fd ∉ s.worker.fds)
    (j : Fin maxClients) : s.server.roster.clients j ≠ some fd := by
  intro heq
  obtain ⟨hfd, rfl⟩ := ServerState.roster_eq_some_iff.mp heq
  exact hnew (h.books.clients_open (held_of_used hfd))

theorem InOrder.addClient_leadsTo (h : InOrder s) {fd now : Int} (hpos : 0 < fd)
    (hnew : fd ∉ s.worker.fds) {index : Option (Fin maxClients)}
    (hadd : addClientToSelect fd now (s.open_ fd) = .ok (index, t)) : s.LeadsTo t := by
  have hother := h.roster_ne_new hnew
  rcases addClient_cases hadd with ⟨-, ⟨hcount, rfl⟩ | ⟨hcount, hnone, -⟩⟩ |
    ⟨i, m, -, -, hi, hset, rfl⟩
  · have hfull : ∀ j, s.server.roster.clients j ≠ none := by
      intro j hj
      have hused := h.books.all_used hcount j
      have hfree := ServerState.roster_eq_none_iff.mp hj
      omega
    have hrefused : s.server.roster.apply (.limitReached fd) = some s.server.roster := by
      rw [Roster.apply, if_pos ⟨rfl, hfull, hother⟩]
    exact Leads.event hrefused
  · have hsome := freeSlot_isSome h.books hcount
    rw [SelectState.open_server] at hnone
    rw [hnone] at hsome
    cases hsome
  · have hfree := fd_of_freeSlot hi
    have hbefore : ∀ j < i, s.server.roster.clients j ≠ none := fun j hj hnone => by
      have hused := used_of_freeSlot hi hj
      have := ServerState.roster_eq_none_iff.mp hnone
      rw [SelectState.open_server] at hused
      omega
    have hroster : (s.server.withClient i ⟨fd, now⟩ m).roster = { s.server.roster with
        clients := Function.update s.server.roster.clients i (some fd) } :=
      ServerState.roster_withClient hpos.le m
    have hadmitted : s.server.roster.apply (.connected i fd) =
        some (s.server.withClient i ⟨fd, now⟩ m).roster := by
      rw [Roster.apply, if_pos ⟨rfl, ServerState.roster_eq_none_iff.mpr hfree, hbefore, hother⟩,
        hroster]
    exact Leads.event hadmitted

theorem disconnects (server : ServerState) {serving : Option (Fin maxClients × Int)} {fd : Int}
    (hserving : serving = none ∨ serving = some (i, fd)) (hfd : 0 ≤ fd) (hi : server.fd i = fd)
    (m : FdSet) : Roster.apply { server.roster with serving := serving } (.disconnected i fd) =
      some (server.withoutClient i m).roster := by
  have hheld := ServerState.roster_eq_some_iff.mpr ⟨hfd, hi⟩
  rw [Roster.apply, if_pos ⟨hserving, hheld⟩, ServerState.roster_withoutClient]
  rfl

theorem removeClient_leadsTo (hi : 0 ≤ s.server.fd i) (h : removeClientFromSelect i s = .ok t) :
    s.LeadsTo t := by
  obtain ⟨m, -, rfl⟩ := removeClient_spec hi h
  exact Leads.event (disconnects s.server (.inl rfl) hi rfl m)

theorem serveClient_leadsTo {visit : Visit} (hi : 0 ≤ s.server.fd i)
    (h : serveClient homeDir visit s i = .ok t) : s.LeadsTo t := by
  rw [serveClient_eq] at h
  obtain ⟨session, -, h⟩ := bind_eq_ok.mp h
  obtain ⟨m, -, rfl⟩ := removeClient_spec (s := (s.notify _).withWorker session.worker) hi h
  have hserved : s.server.roster.apply (.served i (s.server.fd i)) =
      some { s.server.roster with serving := some (i, s.server.fd i) } := by
    rw [Roster.apply, if_pos ⟨rfl, ServerState.roster_eq_some_iff.mpr ⟨hi, rfl⟩⟩]
  have hgone := disconnects s.server (.inr rfl) hi rfl m
  exact (Leads.event hserved).trans (Leads.event hgone)

theorem InOrder.call_leadsTo (hs : InOrder s) (hfresh : turn.AcceptsFresh s)
    (h : MinhServer.handleSelectEvents homeDir turn s = .ok t) : s.LeadsTo t := by
  refine hs.call_rule hfresh h (leadsTo_of_same rfl rfl) ?_ ?_ ?_ ?_
  · exact fun u _ hu => leadsTo_trans hu (leadsTo_of_same rfl rfl)
  · exact fun u v i _ hu hi hremove => leadsTo_trans hu (removeClient_leadsTo hi hremove)
  · exact fun u v i _ hu hi hserve => leadsTo_trans hu (serveClient_leadsTo hi hserve)
  · exact fun u v fd _ horder hu hpos hnew hadd =>
      leadsTo_trans hu (horder.addClient_leadsTo hpos hnew hadd)

end Steps

section Counting
variable {log : List Event} {roster next : Roster} {e : Event} {i : Fin maxClients} {fd : Int}

/-- How the numbers of arrivals, services and departures of each client agree with the table. -/
structure Balanced (log : List Event) (roster : Roster) : Prop where
  client : ∀ i fd, log.count (.connected i fd) =
    log.count (.disconnected i fd) + if roster.clients i = some fd then 1 else 0
  served : ∀ i fd, log.count (.served i fd) ≤
    log.count (.disconnected i fd) + if roster.serving = some (i, fd) then 1 else 0
  total : log.countP Event.isArrival =
    log.countP Event.isDeparture + (Finset.univ.filter fun i => roster.clients i ≠ none).card

theorem Balanced.empty : Balanced [] .empty := by
  refine ⟨fun i fd => ?_, fun i fd => ?_, ?_⟩ <;> simp [Roster.empty]

theorem Balanced.connected {j : Fin maxClients} {f : Int} (h : Balanced log roster)
    (hfree : roster.clients j = none) :
    Balanced (log ++ [.connected j f])
      { roster with clients := Function.update roster.clients j (some f) } := by
  have hclient := h.client
  have hserved := h.served
  have htotal := h.total
  have hset : (Finset.univ.filter fun i => Function.update roster.clients j (some f) i ≠ none) =
      insert j (Finset.univ.filter fun i => roster.clients i ≠ none) := by
    ext i
    by_cases hi : i = j
    · subst hi
      simp
    · simp [hi]
  refine ⟨fun i fd => ?_, fun i fd => ?_, ?_⟩
  · rw [List.count_append, List.count_append, hclient i fd]
    by_cases hi : i = j
    · subst hi
      by_cases hfd : f = fd
      · subst hfd
        simp [hfree]
      · simp [hfd, hfree]
    · simp [hi, Ne.symm hi]
  · rw [List.count_append, List.count_append]
    have := hserved i fd
    simpa using this
  · rw [List.countP_append, List.countP_append, htotal, hset, Finset.card_insert_of_notMem]
    · simp [Event.isArrival, Event.isDeparture]
      omega
    · simp [hfree]

theorem Balanced.served_next {j : Fin maxClients} {f : Int} (h : Balanced log roster)
    (hidle : roster.serving = none) :
    Balanced (log ++ [.served j f]) { roster with serving := some (j, f) } := by
  have hclient := h.client
  have hserved := h.served
  have htotal := h.total
  refine ⟨fun i fd => ?_, fun i fd => ?_, ?_⟩
  · rw [List.count_append, List.count_append, hclient i fd]
    simp
  · have hbefore := hserved i fd
    rw [hidle] at hbefore
    rw [List.count_append, List.count_append]
    by_cases heq : (j, f) = (i, fd)
    · cases heq
      simp at hbefore ⊢
      omega
    · have hne : Event.served j f ≠ .served i fd := fun hsame => heq (by cases hsame; rfl)
      simp [hne, heq] at hbefore ⊢
      omega
  · rw [List.countP_append, List.countP_append, htotal]
    simp [Event.isArrival, Event.isDeparture]

theorem Balanced.disconnected {j : Fin maxClients} {f : Int} (h : Balanced log roster)
    (hserving : roster.serving = none ∨ roster.serving = some (j, f))
    (hheld : roster.clients j = some f) :
    Balanced (log ++ [.disconnected j f]) ⟨Function.update roster.clients j none, none⟩ := by
  have hclient := h.client
  have hserved := h.served
  have htotal := h.total
  have hset : (Finset.univ.filter fun i => Function.update roster.clients j none i ≠ none) =
      (Finset.univ.filter fun i => roster.clients i ≠ none).erase j := by
    ext i
    by_cases hi : i = j
    · subst hi
      simp
    · simp [hi]
  have hmem : j ∈ Finset.univ.filter fun i => roster.clients i ≠ none := by simp [hheld]
  refine ⟨fun i fd => ?_, fun i fd => ?_, ?_⟩
  · rw [List.count_append, List.count_append, hclient i fd]
    by_cases hi : i = j
    · subst hi
      by_cases hfd : f = fd
      · subst hfd
        simp [hheld]
      · simp [hfd, hheld]
    · simp [hi, Ne.symm hi]
  · have hbefore := hserved i fd
    rw [List.count_append, List.count_append]
    by_cases heq : (j, f) = (i, fd)
    · cases heq
      simp at hbefore ⊢
      split at hbefore <;> omega
    · have hother : roster.serving ≠ some (i, fd) := by
        rintro hsome
        rcases hserving with hnone | hsame
        · rw [hnone] at hsome
          cases hsome
        · rw [hsame, Option.some.injEq] at hsome
          exact heq hsome
      have hne : Event.disconnected j f ≠ .disconnected i fd := fun hsame =>
        heq (by cases hsame; rfl)
      simp [hne, hother] at hbefore ⊢
      omega
  · have hpos := Finset.card_pos.mpr ⟨j, hmem⟩
    have harrival : [Event.disconnected j f].countP Event.isArrival = 0 := rfl
    have hdeparture : [Event.disconnected j f].countP Event.isDeparture = 1 := rfl
    rw [List.countP_append, List.countP_append, htotal, hset, Finset.card_erase_of_mem hmem,
      harrival, hdeparture]
    omega

theorem Balanced.refused {f : Int} (h : Balanced log roster) :
    Balanced (log ++ [.limitReached f]) roster := by
  refine ⟨fun i fd => ?_, fun i fd => ?_, ?_⟩
  · simpa using h.client i fd
  · simpa using h.served i fd
  · have htotal := h.total
    rw [List.countP_append, List.countP_append, htotal]
    simp [Event.isArrival, Event.isDeparture]

/-- Each event that can happen keeps the balance. -/
theorem Balanced.step (h : Balanced log roster) (he : roster.apply e = some next) :
    Balanced (log ++ [e]) next := by
  cases e with
  | badFd fd => cases he
  | noFreeSlot fd => cases he
  | limitReached fd =>
    rw [Roster.apply] at he
    obtain ⟨-, hnext⟩ := Option.ite_none_right_eq_some.mp he
    cases hnext
    exact h.refused
  | connected i fd =>
    rw [Roster.apply] at he
    obtain ⟨hcond, hnext⟩ := Option.ite_none_right_eq_some.mp he
    cases hnext
    exact h.connected hcond.2.1
  | served i fd =>
    rw [Roster.apply] at he
    obtain ⟨hcond, hnext⟩ := Option.ite_none_right_eq_some.mp he
    cases hnext
    exact h.served_next hcond.1
  | disconnected i fd =>
    rw [Roster.apply] at he
    obtain ⟨hcond, hnext⟩ := Option.ite_none_right_eq_some.mp he
    cases hnext
    exact h.disconnected hcond.1 hcond.2

end Counting

def Told (s : SelectState) : Prop :=
  replay Roster.apply .empty s.events = some s.server.roster

theorem ServerState.roster_listening {server server' : ServerState} {sockfd : Int}
    (h : server.listening sockfd = .ok server') : server'.roster = .empty := by
  obtain ⟨-, -, -, -, -, hfd⟩ := ServerState.listening_eq h
  have hclients : ∀ i, server'.roster.clients i = none := fun i =>
    ServerState.roster_eq_none_iff.mpr (by rw [hfd i]; decide)
  rw [ServerState.roster, Roster.empty, Roster.mk.injEq]
  exact ⟨funext hclients, rfl⟩

theorem told_invariant (homeDir : Bytes) :
    (selectLoop homeDir).Invariant (fun _ _ => True) fun s => InOrder s ∧ Told s := by
  refine (inOrder_invariant homeDir).with ?_ ?_
  · rintro s ⟨mode, setup, before, hmode, hevents, h⟩
    obtain ⟨sockfd, -, hserver, -, hsame⟩ := initSocket_select hmode h
    rw [Told, hsame, hevents, ServerState.roster_listening hserver]
    rfl
  · intro s turn t hs htold _ hstep
    obtain ⟨hfresh, hcall⟩ := selectLoop_step hstep
    exact (hs.call_leadsTo hfresh hcall).replay_eq htold

theorem card_roster {server : ServerState} {fds : Finset Int} (h : Bookkeeping server fds) :
    ((Finset.univ.filter fun i => server.roster.clients i ≠ none).card : Int) =
      server.clientCount := by
  have hset :
      (Finset.univ.filter fun i => server.roster.clients i ≠ none) = server.clientSlots := by
    ext i
    rw [Finset.mem_filter, ServerState.clientSlots, mem_occupied, ne_eq,
      ServerState.roster_eq_none_iff]
    simp
  rw [hset, h.count]

/-- In every reachable state the events reported so far are a history of the client table that
tells what it holds; each client came once more than it left if it is in the table, and as often
otherwise; it was served at most as often as it left; and as many clients are counted as came and
did not leave. -/
theorem events_tell_table (homeDir : Bytes) (s : SelectState)
    (h : (selectLoop homeDir).Reachable s) :
    replay Roster.apply .empty s.events = some s.server.roster ∧
      (∀ i fd, 0 ≤ fd → s.events.count (.connected i fd) =
        s.events.count (.disconnected i fd) + if s.server.fd i = fd then 1 else 0) ∧
      (∀ i fd, s.events.count (.served i fd) ≤ s.events.count (.disconnected i fd)) ∧
      (s.events.countP Event.isArrival : Int) =
        s.events.countP Event.isDeparture + s.server.clientCount := by
  obtain ⟨hs, htold⟩ := (told_invariant homeDir).holds h
  have hbalanced : Balanced s.events s.server.roster :=
    replay_invariant Balanced .empty (fun _ _ _ _ hlog he => hlog.step he) htold
  refine ⟨htold, fun i fd hfd => ?_, fun i fd => hbalanced.served i fd, ?_⟩
  · rw [hbalanced.client i fd]
    simp only [ServerState.roster_eq_some_iff, hfd, true_and]
  · rw [hbalanced.total, ← card_roster hs.books]
    push_cast
    rfl

/-- A client comes and leaves, a second one comes. -/
theorem events_tell_table_two : ∃ s : SelectState,
    s.events = [.connected 0 4, .connected 1 5, .served 0 4, .disconnected 0 4] ∧
      replay Roster.apply .empty s.events = some s.server.roster := by
  obtain ⟨s, hrun, hevents, -⟩ := exists_two_clients
  have hreach : (selectLoop (ascii "./www")).Reachable s :=
    .of_startingAt (.init (init_started _)) hrun
  exact ⟨s, hevents, (events_tell_table _ s hreach).1⟩

end MinhServer
