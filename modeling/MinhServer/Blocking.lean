import MinhServer.Admission

namespace MinhServer
open CString Wire

/-- `accept` on the listening socket; `outcome` is the new descriptor, if it does not fail. On a
closed descriptor it always fails. -/
def acceptClient (outcome : Option Int) (sockfd : Int) (w : Worker) : Int × Worker :=
  if sockfd ∈ w.fds then
    match outcome with
    | none => (-1, w.close sockfd)
    | some conn => (conn, { w with fds := insert conn w.fds })
  else (-1, w.close sockfd)

/-- What one pass of the loop meets; `turn` is for select mode. -/
structure Pass where
  accept : Option Int
  visit : Visit
  turn : Turn

/-- The process, with the outcomes that `accept` had or would have had on a listening socket, and
the connections that were handed to `handleOneClientRequest`. -/
structure RunState where
  sockfd : Int
  select : SelectState
  attempts : List (Option Int) := []
  handled : List Int := []

namespace RunState

def attempt (r : RunState) (outcome : Option Int) (w : Worker) : RunState :=
  { r with attempts := r.attempts ++ [outcome], select := r.select.withWorker w }

def handle (r : RunState) (conn : Int) (w : Worker) : RunState :=
  { r with handled := r.handled ++ [conn], select := r.select.withWorker w }

/-- The descriptors that are open. -/
def fds (r : RunState) : Finset Int := r.select.worker.fds

end RunState

/-- The body of the loop in `runServer`. -/
def runServerPass (homeDir mode : Bytes) (pass : Pass) (r : RunState) : Except Fault RunState :=
  if sameNoCase mode (ascii "blocking") then
    let (conn, w) := acceptClient pass.accept r.sockfd r.select.worker
    let r := r.attempt pass.accept w
    if conn = -1 then .ok r
    else do
      let w := { w with sends := pass.visit.sends }
      let session ← handleOneClientRequest .blocking conn homeDir pass.visit.disk pass.visit.peer w
      .ok (r.handle conn session.worker)
  else if sameNoCase mode (ascii "select") then do
    let s ← handleSelectEvents homeDir pass.turn r.select
    .ok { r with select := s }
  else .ok r

/-- What `accept` returns is a descriptor that is not open. -/
def Pass.AcceptsNew (pass : Pass) (r : RunState) : Prop := ∀ fd ∈ pass.accept, 0 ≤ fd ∧ fd ∉ r.fds

instance (pass : Pass) (r : RunState) : Decidable (pass.AcceptsNew r) :=
  inferInstanceAs (Decidable (∀ fd ∈ pass.accept, 0 ≤ fd ∧ fd ∉ r.fds))

/-- `initSocket`, then one pass after another. -/
def runServer (homeDir mode : Bytes) : Machine RunState Pass where
  init r := r.attempts = [] ∧ r.handled = [] ∧ ∃ setup before,
    setup.sockfd = some r.sockfd ∧ initSocket mode setup before = .ok (0, r.select)
  step r pass := if pass.AcceptsNew r then (runServerPass homeDir mode pass r).toOption else none

section Accept
variable {sockfd : Int} {w : Worker}

theorem acceptClient_closed (outcome : Option Int) (h : sockfd ∉ w.fds) :
    acceptClient outcome sockfd w = (-1, w.close sockfd) := if_neg h

theorem acceptClient_none (h : sockfd ∈ w.fds) :
    acceptClient none sockfd w = (-1, w.close sockfd) := if_pos h

theorem acceptClient_some (conn : Int) (h : sockfd ∈ w.fds) :
    acceptClient (some conn) sockfd w = (conn, { w with fds := insert conn w.fds }) := if_pos h

end Accept

section Passes
variable {homeDir mode : Bytes} {pass : Pass} {r t : RunState}

/-- A pass in blocking mode: `accept` fails and the listening descriptor is closed, or the new
connection is served. -/
theorem runServerPass_blocking (hmode : sameNoCase mode (ascii "blocking"))
    (hnew : pass.AcceptsNew r) (h : runServerPass homeDir mode pass r = .ok t) :
    ((r.sockfd ∉ r.fds ∨ pass.accept = none) ∧
        t = r.attempt pass.accept (r.select.worker.close r.sockfd)) ∨
      ∃ conn w, r.sockfd ∈ r.fds ∧ pass.accept = some conn ∧
        t = (r.attempt (some conn) { r.select.worker with fds := insert conn r.fds }).handle
          conn w ∧
        ∀ fd ∈ r.fds, fd ∈ w.fds := by
  unfold runServerPass at h
  rw [if_pos hmode] at h
  by_cases hopen : r.sockfd ∈ r.fds
  · cases hconn : pass.accept with
    | none =>
      rw [hconn, acceptClient_none hopen] at h
      exact .inl ⟨.inr rfl, (Except.ok.inj h).symm⟩
    | some conn =>
      obtain ⟨hpos, hfresh⟩ := hnew conn hconn
      rw [hconn, acceptClient_some conn hopen] at h
      dsimp only at h
      rw [if_neg (by omega)] at h
      obtain ⟨session, hsession, h⟩ := bind_eq_ok.mp h
      obtain ⟨-, hcloses⟩ := serveRequests_closesOnly hsession
      refine .inr ⟨conn, session.worker, hopen, rfl, (Except.ok.inj h).symm, fun fd hfd => ?_⟩
      exact hcloses.fds fd (Finset.mem_insert_of_mem hfd) fun heq => hfresh (heq ▸ hfd)
  · rw [acceptClient_closed pass.accept hopen] at h
    exact .inl ⟨.inl hopen, (Except.ok.inj h).symm⟩

/-- The listening socket is open, and every connection was handled. -/
def RunState.KeepsListener (r : RunState) : Prop :=
  r.sockfd ∈ r.fds ∧ r.handled = r.attempts.filterMap id

/-- The listening socket is there as long as no `accept` failed. -/
structure RunState.Accounted (r : RunState) : Prop where
  kept : none ∉ r.attempts → r.KeepsListener
  lost : none ∈ r.attempts → r.sockfd ∉ r.fds

theorem initSocket_open {setup : SocketSetup} {before s : SelectState} {sockfd : Int}
    (hsockfd : setup.sockfd = some sockfd) (h : initSocket mode setup before = .ok (0, s)) :
    sockfd ∈ s.worker.fds := by
  unfold initSocket at h
  rw [hsockfd] at h
  dsimp only at h
  split at h
  · cases h
  · have hlistens : ∀ server, (if setup.listens then
        (.ok (0, (before.open_ sockfd).withServer server) : Except Fault (Int × SelectState))
        else .ok (-1, ((before.open_ sockfd).withServer server).close sockfd)) = .ok (0, s) →
        sockfd ∈ s.worker.fds := by
      intro server hserver
      split at hserver
      · cases hserver
        exact Finset.mem_insert_self _ _
      · cases hserver
    split at h <;> obtain ⟨server, -, h⟩ := bind_eq_ok.mp h <;> exact hlistens server h

theorem RunState.Accounted.after (hr : r.Accounted) (hmode : sameNoCase mode (ascii "blocking"))
    (hnew : pass.AcceptsNew r) (h : runServerPass homeDir mode pass r = .ok t) : t.Accounted := by
  rcases runServerPass_blocking hmode hnew h with
    ⟨hfails, rfl⟩ | ⟨conn, w, hopen, haccept, rfl, hstays⟩
  · have hclosed : r.sockfd ∉ (r.attempt pass.accept (r.select.worker.close r.sockfd)).fds :=
      Finset.notMem_erase _ _
    have hfailed : none ∈ r.attempts ++ [pass.accept] := by
      rcases hfails with hlost | hnone
      · have hbefore : none ∈ r.attempts := by
          by_contra hnone
          exact hlost (hr.kept hnone).1
        exact List.mem_append_left _ hbefore
      · rw [hnone]
        exact List.mem_append_right _ List.mem_cons_self
    exact ⟨fun hnone => absurd hfailed hnone, fun _ => hclosed⟩
  · have hbefore : none ∉ r.attempts := fun hnone => hr.lost hnone hopen
    obtain ⟨-, hhandled⟩ := hr.kept hbefore
    refine ⟨fun _ => ⟨hstays _ hopen, ?_⟩, fun hnone => ?_⟩
    · change r.handled ++ [conn] = (r.attempts ++ [some conn]).filterMap id
      rw [List.filterMap_append, hhandled]
      rfl
    · have hafter : none ∉ r.attempts ++ [some conn] := by simp [hbefore]
      exact absurd hnone hafter

theorem accounted_invariant (homeDir : Bytes) (hmode : sameNoCase mode (ascii "blocking")) :
    (runServer homeDir mode).Invariant (fun _ _ => True) RunState.Accounted where
  init := by
    rintro r ⟨hattempts, hhandled, setup, before, hsockfd, h⟩
    have hopen : r.sockfd ∈ r.fds := initSocket_open hsockfd h
    refine ⟨fun _ => ⟨hopen, by rw [hattempts, hhandled]; rfl⟩, fun hnone => ?_⟩
    rw [hattempts] at hnone
    cases hnone
  step := by
    intro r pass t hr _ h
    unfold runServer at h
    dsimp only at h
    split at h
    · next hnew =>
      cases hpass : runServerPass homeDir mode pass r with
      | error fault =>
        rw [hpass] at h
        cases h
      | ok t' =>
        rw [hpass] at h
        cases h
        exact hr.after hmode hnew hpass
    · cases h

end Passes

/-- In every run in blocking mode: the listening socket is open and every connection that could be
accepted was handed to the handler if and only if no `accept` has failed so far. -/
theorem keepsListener_iff (homeDir mode : Bytes) (hmode : sameNoCase mode (ascii "blocking"))
    (r : RunState) (h : (runServer homeDir mode).Reachable r) :
    r.KeepsListener ↔ none ∉ r.attempts := by
  have hr : r.Accounted := (accounted_invariant homeDir hmode).holds h
  exact ⟨fun hkept hnone => hr.lost hnone hkept.1, hr.kept⟩

def quietPass (accept : Option Int) : Pass where
  accept := accept
  visit := quietVisit 0
  turn := ⟨.timeout, none, 0, quietVisit⟩

theorem init_runServer (homeDir : Bytes) : (runServer homeDir (ascii "blocking")).init
    { sockfd := 3, select := startedIn (ascii "blocking") } :=
  ⟨rfl, rfl, _, standardState, rfl, initSocket_standard (ascii "blocking")⟩

theorem exists_attempts (second : Option Int) (hsecond : second ∈ [some 4, none]) :
    ∃ r, (runServer (ascii "./www") (ascii "blocking")).Reachable r ∧
      r.attempts = [some 4, second] := by
  have hrun : ∀ second ∈ [some 4, none],
      ((runServer (ascii "./www") (ascii "blocking")).run (fun _ _ => True)
        { sockfd := 3, select := startedIn (ascii "blocking") }
        [quietPass (some 4), quietPass second]).map (·.attempts) = some [some 4, second] := by
    decide +kernel
  obtain ⟨r, hr, hattempts⟩ := Option.map_eq_some_iff.mp (hrun second hsecond)
  exact ⟨r, Machine.ReachableBy.run (.init (init_runServer _)) hr, hattempts⟩

/-- Two connections, one after the other. -/
theorem keepsListener_iff_twice : ∃ r : RunState,
    r.attempts = [some 4, some 4] ∧ r.KeepsListener := by
  obtain ⟨r, hreach, hattempts⟩ := exists_attempts (some 4) (by simp)
  refine ⟨r, hattempts, (keepsListener_iff _ _ (by decide +kernel) r hreach).mpr ?_⟩
  rw [hattempts]
  decide

/-- One failed `accept`, and the listening socket is closed. -/
theorem failed_accept_closes_listener : ¬ ∀ homeDir mode, sameNoCase mode (ascii "blocking") →
    ∀ r, (runServer homeDir mode).Reachable r → r.KeepsListener := by
  intro h
  obtain ⟨r, hreach, hattempts⟩ := exists_attempts none (by simp)
  have hkept := h _ _ (by decide +kernel) r hreach
  have hmode : sameNoCase (ascii "blocking") (ascii "blocking") := by decide +kernel
  have hr : r.Accounted := (accounted_invariant _ hmode).holds hreach
  exact hr.lost (by rw [hattempts]; decide) hkept.1

end MinhServer
