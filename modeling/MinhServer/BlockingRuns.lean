import MinhServer.Blocking
import MinhServer.Isolation
import MinhServer.Ledger

namespace MinhServer
open CString Wire

/-- The session of a process that accepts this one connection. -/
def soleSession (homeDir : Bytes) (conn : Int) (visit : Visit) : Except Fault Session :=
  handleOneClientRequest .blocking conn homeDir visit.disk visit.peer
    { fds := {conn}, sends := visit.sends }

def soleSends (homeDir : Bytes) (conn : Int) (visit : Visit) : List Call :=
  match soleSession homeDir conn visit with
  | .ok session => session.worker.sent
  | .error _ => []

/-- The connections of a run, up to the first `accept` that fails. -/
def acceptedVisits : List Pass → List (Int × Visit)
  | [] => []
  | pass :: passes =>
    match pass.accept with
    | none => []
    | some conn => (conn, pass.visit) :: acceptedVisits passes

/-- The descriptors that the listening process keeps. -/
def RunState.base (r : RunState) (failed : Bool) : Finset Int :=
  if failed then r.fds.erase r.sockfd else r.fds

def RunState.unclosed (r : RunState) : Int := r.select.worker.unclosed

def RunState.failedSends (r : RunState) : Int := r.select.worker.failedSends

/-- From `r` to `t` the connections in `visits` were served, and an `accept` failed after them if
`failed` says so. -/
structure Passed (homeDir : Bytes) (r : RunState) (visits : List (Int × Visit)) (failed : Bool)
    (t : RunState) : Prop where
  sockfd : t.sockfd = r.sockfd
  sent : t.select.worker.sent =
    r.select.worker.sent ++ visits.flatMap fun v => soleSends homeDir v.1 v.2
  handled : t.handled = r.handled ++ visits.map Prod.fst
  base : r.base failed ⊆ t.fds
  card : (t.fds.card : Int) = (r.base failed).card + (t.unclosed - r.unclosed)
  opened : r.unclosed ≤ t.unclosed
  failed : t.unclosed - r.unclosed ≤ t.failedSends - r.failedSends

section Passes
variable {homeDir mode : Bytes} {pass : Pass} {passes : List Pass} {r t u : RunState}
  {visits : List (Int × Visit)} {failed : Bool}

theorem Passed.refl (r : RunState) : Passed homeDir r [] false r where
  sockfd := rfl
  sent := (List.append_nil _).symm
  handled := (List.append_nil _).symm
  base := Finset.Subset.refl _
  card := by
    rw [RunState.base, if_neg Bool.false_ne_true]
    omega
  opened := le_rfl
  failed := by omega

theorem RunState.base_false (r : RunState) : r.base false = r.fds := if_neg Bool.false_ne_true

theorem RunState.base_true (r : RunState) : r.base true = r.fds.erase r.sockfd := if_pos rfl

/-- A run in which no `accept` failed goes on. -/
theorem Passed.trans {visits' : List (Int × Visit)} (h : Passed homeDir r visits false u)
    (h' : Passed homeDir u visits' failed t) (hopen : r.sockfd ∈ r.fds) :
    Passed homeDir r (visits ++ visits') failed t := by
  have hsub : r.fds ⊆ u.fds := r.base_false ▸ h.base
  have hcard := h.card
  have hcard' := h'.card
  have hopened := h.opened
  have hopened' := h'.opened
  have hfailed := h.failed
  have hfailed' := h'.failed
  rw [RunState.base_false] at hcard
  have hbase : r.base failed ⊆ u.base failed ∧
      ((u.base failed).card : Int) = (r.base failed).card + (u.unclosed - r.unclosed) := by
    cases failed with
    | false =>
      rw [RunState.base_false, RunState.base_false]
      exact ⟨hsub, hcard⟩
    | true =>
      rw [RunState.base_true, RunState.base_true, h.sockfd]
      refine ⟨Finset.erase_subset_erase _ hsub, ?_⟩
      have herase := Finset.card_erase_add_one hopen
      have herase' := Finset.card_erase_add_one (hsub hopen)
      omega
  refine ⟨h'.sockfd.trans h.sockfd, ?_, ?_, hbase.1.trans h'.base, ?_, by omega, by omega⟩
  · rw [h'.sent, h.sent, List.flatMap_append, List.append_assoc]
  · rw [h'.handled, h.handled, List.map_append, List.append_assoc]
  · have hgrown := hbase.2
    omega

theorem passed_closed (r : RunState) (outcome : Option Int) :
    Passed homeDir r [] true (r.attempt outcome (r.select.worker.close r.sockfd)) := by
  obtain ⟨hunclosed, hfailed⟩ := r.select.worker.close_counts r.sockfd
  have hunclosed' : (r.attempt outcome (r.select.worker.close r.sockfd)).unclosed = r.unclosed :=
    hunclosed
  have hfailed' : (r.attempt outcome (r.select.worker.close r.sockfd)).failedSends =
      r.failedSends := hfailed
  have hfds : r.base true = (r.attempt outcome (r.select.worker.close r.sockfd)).fds := r.base_true
  refine ⟨rfl, ?_, (List.append_nil _).symm, hfds.subset, ?_, hunclosed'.ge, by omega⟩
  · exact (Worker.sent_record rfl _).trans (List.append_nil _).symm
  · rw [hfds]
    omega

/-- Nothing happens to a server without its listening socket. -/
theorem Passed.idle (h : Passed homeDir r visits true u) (h' : Passed homeDir u [] true t)
    (hlost : u.sockfd ∉ u.fds) : Passed homeDir r visits true t := by
  have hbase : u.base true = u.fds := u.base_true.trans (Finset.erase_eq_of_notMem hlost)
  have hcard := h.card
  have hcard' := h'.card
  have hopened := h.opened
  have hopened' := h'.opened
  have hfailed := h.failed
  have hfailed' := h'.failed
  rw [hbase] at hcard'
  refine ⟨h'.sockfd.trans h.sockfd, ?_, ?_, ?_, by omega, by omega, by omega⟩
  · rw [h'.sent, h.sent, List.flatMap_nil, List.append_nil]
  · rw [h'.handled, h.handled, List.map_nil, List.append_nil]
  · exact h.base.trans (hbase ▸ h'.base)

/-- A connection is accepted and served. -/
theorem passed_serve (hmode : sameNoCase mode (ascii "blocking")) (hnew : pass.AcceptsNew r)
    (hopen : r.sockfd ∈ r.fds) {conn : Int} (haccept : pass.accept = some conn)
    (h : runServerPass homeDir mode pass r = .ok t) :
    Passed homeDir r [(conn, pass.visit)] false t := by
  obtain ⟨hpos, hfresh⟩ := hnew conn haccept
  unfold runServerPass at h
  rw [if_pos hmode, haccept, acceptClient_some conn hopen] at h
  dsimp only at h
  rw [if_neg (by omega)] at h
  obtain ⟨session, hsession, h⟩ := bind_eq_ok.mp h
  cases h
  let start : Worker :=
    { r.select.worker with fds := insert conn r.fds, sends := pass.visit.sends }
  have hsent : session.worker.sent = r.select.worker.sent ++ soleSends homeDir conn pass.visit := by
    have hstart : Alike conn start { fds := {conn}, sends := pass.visit.sends } start
        { fds := {conn}, sends := pass.visit.sends } :=
      .start rfl (Finset.mem_insert_self _ _) (Finset.mem_singleton_self conn)
    have hsame : SameSession conn start { fds := {conn}, sends := pass.visit.sends }
        (handleOneClientRequest .blocking conn homeDir pass.visit.disk pass.visit.peer start)
        (soleSession homeDir conn pass.visit) := (hstart.record rfl).serveRequests []
    have hsession' : handleOneClientRequest .blocking conn homeDir pass.visit.disk
        pass.visit.peer start = .ok session := hsession
    rw [hsession'] at hsame
    unfold soleSends
    revert hsame
    generalize soleSession homeDir conn pass.visit = x
    intro hsame
    cases hsame with
    | ok alike => exact alike.sent_eq rfl
  obtain ⟨hclosed, -⟩ := serveRequests_closesOnly hsession
  have hledger : Ledger conn start session.worker :=
    (Ledger.setTimeout conn start 30).trans (.serveRequests hsession)
  have hbefore : start.fds.erase conn = r.fds := Finset.erase_insert hfresh
  have hcard := hledger.card
  rw [hbefore, Finset.erase_eq_of_notMem hclosed] at hcard
  refine ⟨rfl, ?_, rfl, ?_, ?_, hledger.opened, hledger.failed⟩
  · rw [List.flatMap_singleton]
    exact hsent
  · rw [RunState.base_false, ← hbefore]
    exact hledger.kept
  · rw [RunState.base_false]
    exact hcard

end Passes

section Runs
variable {homeDir mode : Bytes} {passes : List Pass} {r t : RunState}

theorem runServer_step {pass : Pass} (h : (runServer homeDir mode).step r pass = some t) :
    pass.AcceptsNew r ∧ runServerPass homeDir mode pass r = .ok t := by
  change (if pass.AcceptsNew r then (runServerPass homeDir mode pass r).toOption else none) =
    some t at h
  split at h
  · next hnew =>
    refine ⟨hnew, ?_⟩
    cases hpass : runServerPass homeDir mode pass r with
    | error fault =>
      rw [hpass] at h
      cases h
    | ok u =>
      rw [hpass] at h
      cases h
      rfl
  · cases h

theorem run_lost (hmode : sameNoCase mode (ascii "blocking")) (hlost : r.sockfd ∉ r.fds)
    (hrun : (runServer homeDir mode).run (fun _ _ => True) r passes = some t) :
    Passed homeDir r [] true t := by
  induction passes generalizing r with
  | nil =>
    obtain rfl : r = t := by simpa [Machine.run] using hrun
    have hbase : r.base true = r.fds := r.base_true.trans (Finset.erase_eq_of_notMem hlost)
    refine ⟨rfl, (List.append_nil _).symm, (List.append_nil _).symm, hbase.subset, ?_, le_rfl,
      by omega⟩
    rw [hbase]
    omega
  | cons pass passes ih =>
    rw [Machine.run, if_pos trivial] at hrun
    obtain ⟨u, hstep, hrun⟩ := Option.bind_eq_some_iff.mp hrun
    obtain ⟨hnew, hpass⟩ := runServer_step hstep
    rcases runServerPass_blocking hmode hnew hpass with ⟨-, rfl⟩ | ⟨conn, w, hopen, -⟩
    · have hclosed : r.sockfd ∉ (r.select.worker.close r.sockfd).fds := Finset.notMem_erase _ _
      exact (passed_closed r pass.accept).idle (ih hclosed hrun) hclosed
    · exact absurd hopen hlost

theorem run_passed (hmode : sameNoCase mode (ascii "blocking")) (hopen : r.sockfd ∈ r.fds)
    (hrun : (runServer homeDir mode).run (fun _ _ => True) r passes = some t) :
    Passed homeDir r (acceptedVisits passes) (passes.any fun pass => pass.accept.isNone) t := by
  induction passes generalizing r with
  | nil =>
    obtain rfl : r = t := by simpa [Machine.run] using hrun
    exact .refl r
  | cons pass passes ih =>
    rw [Machine.run, if_pos trivial] at hrun
    obtain ⟨u, hstep, hrun⟩ := Option.bind_eq_some_iff.mp hrun
    obtain ⟨hnew, hpass⟩ := runServer_step hstep
    cases haccept : pass.accept with
    | none =>
      rw [acceptedVisits, haccept, List.any_cons, haccept]
      rcases runServerPass_blocking hmode hnew hpass with ⟨-, rfl⟩ | ⟨conn, w, -, hconn, -⟩
      · have hclosed : r.sockfd ∉ (r.select.worker.close r.sockfd).fds := Finset.notMem_erase _ _
        exact (passed_closed r pass.accept).idle (run_lost hmode hclosed hrun) hclosed
      · rw [haccept] at hconn
        cases hconn
    | some conn =>
      have hserve := passed_serve hmode hnew hopen haccept hpass
      have hstill : u.sockfd ∈ u.fds := by
        rw [hserve.sockfd]
        exact hserve.base (r.base_false ▸ hopen)
      rw [acceptedVisits, haccept, List.any_cons, haccept]
      exact hserve.trans (ih hstill hrun) hopen

/-- The server in blocking mode serves the connections that are accepted before the first `accept`
that fails, one after the other and each as if it were the only one; after that it serves nobody
for ever. No connection is left open, and a file only where a `send` failed: while none fails the
process has the descriptors that it had when it began to listen, without the listening one if an
`accept` failed. -/
theorem connections_isolated (hmode : sameNoCase mode (ascii "blocking"))
    (hinit : (runServer homeDir mode).init r)
    (hrun : (runServer homeDir mode).run (fun _ _ => True) r passes = some t) :
    t.select.worker.sent = r.select.worker.sent ++
        (acceptedVisits passes).flatMap (fun v => soleSends homeDir v.1 v.2) ∧
      t.handled = (acceptedVisits passes).map Prod.fst ∧
      (t.failedSends = r.failedSends →
        t.fds = if passes.any (fun pass => pass.accept.isNone) then r.fds.erase r.sockfd
          else r.fds) := by
  obtain ⟨-, hhandled, setup, before, hsockfd, hstart⟩ := hinit
  have hpassed := run_passed hmode (initSocket_open hsockfd hstart) hrun
  refine ⟨hpassed.sent, ?_, fun hnone => ?_⟩
  · rw [hpassed.handled, hhandled, List.nil_append]
  · have hcard := hpassed.card
    have hopened := hpassed.opened
    have hfailed := hpassed.failed
    have hsame := Finset.eq_of_subset_of_card_le hpassed.base (by omega)
    rw [← hsame]
    rfl

/-- Two connections get the same descriptor, and the third `accept` fails. -/
theorem connections_isolated_three : ∃ (r t : RunState) (passes : List Pass),
    (runServer (ascii "./www") (ascii "blocking")).run (fun _ _ => True) r passes = some t ∧
      passes.length = 4 ∧ t.handled = [4, 4] ∧ t.fds = {0, 1, 2} := by
  let visit : Visit :=
    ⟨.ofSegments [ascii "OPTIONS /a HTTP/1.1\r\n\r\n"], [], ⟨fun _ => false, fun _ => none⟩⟩
  let turn : Turn := ⟨.failed, none, 0, fun _ => visit⟩
  let passes : List Pass := [⟨some 4, visit, turn⟩, ⟨some 4, visit, turn⟩, ⟨none, visit, turn⟩,
    ⟨some 4, visit, turn⟩]
  let r : RunState := { sockfd := 3, select := startedIn (ascii "blocking") }
  have hrun : ((runServer (ascii "./www") (ascii "blocking")).run (fun _ _ => True) r passes).map
      (·.failedSends) = some 0 := by decide +kernel
  obtain ⟨t, ht, hafter⟩ := Option.map_eq_some_iff.mp hrun
  obtain ⟨-, hhandled, hkept⟩ := connections_isolated (by decide +kernel) (init_runServer _) ht
  exact ⟨r, t, passes, ht, rfl, hhandled, (hkept hafter).trans (by decide)⟩

end Runs
end MinhServer
