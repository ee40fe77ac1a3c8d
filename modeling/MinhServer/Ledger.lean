import MinhServer.Readiness
import MinhServer.Rounds

namespace MinhServer
open CString Wire Slots

def Call.isFopen : Call → Bool
  | .fopen _ _ => true
  | .setTimeout _ _ | .recv _ | .send _ _ | .fclose _ | .close _ => false

def Call.isFclose : Call → Bool
  | .fclose _ => true
  | .setTimeout _ _ | .recv _ | .send _ _ | .fopen _ _ | .close _ => false

def Call.isFailedSend : Call → Bool
  | .send _ none => true
  | .send _ (some _) | .setTimeout _ _ | .recv _ | .fopen _ _ | .fclose _ | .close _ => false

/-- How many files were opened and not closed again. -/
def Worker.unclosed (w : Worker) : Int := w.log.countP Call.isFopen - w.log.countP Call.isFclose

def Worker.failedSends (w : Worker) : Int := w.log.countP Call.isFailedSend

/-- From `w` to `w'` the connection and files were used: nothing else was closed, the number of
the other descriptors changed by the files that were left open, and for each of these a `send`
failed. -/
structure Ledger (conn : Int) (w w' : Worker) : Prop where
  kept : w.fds.erase conn ⊆ w'.fds
  card : ((w'.fds.erase conn).card : Int) = (w.fds.erase conn).card + (w'.unclosed - w.unclosed)
  opened : w.unclosed ≤ w'.unclosed
  failed : w'.unclosed - w.unclosed ≤ w'.failedSends - w.failedSends

section Calls
variable {conn fd : Int} {w w' w'' : Worker} {c : Call}

theorem Worker.unclosed_record (w : Worker) (c : Call) : (w.record c).unclosed =
    w.unclosed + (if c.isFopen then 1 else 0) - if c.isFclose then 1 else 0 := by
  simp only [unclosed, record, List.countP_append, List.countP_singleton]
  push_cast
  omega

theorem Worker.failedSends_record (w : Worker) (c : Call) :
    (w.record c).failedSends = w.failedSends + if c.isFailedSend then 1 else 0 := by
  simp only [failedSends, record, List.countP_append, List.countP_singleton]
  push_cast
  rfl

theorem Worker.unclosed_fclose (w : Worker) (fd : Int) :
    (w.fclose fd).unclosed = w.unclosed - 1 := by
  have h : (w.fclose fd).unclosed = w.unclosed + 0 - 1 :=
    unclosed_record { w with fds := w.fds.erase fd } (.fclose fd)
  omega

theorem Worker.unclosed_opened (w : Worker) (name : Bytes) (res : HttpResponse) :
    (w.opened name res).unclosed = w.unclosed + 1 := by
  have h : (w.opened name res).unclosed = w.unclosed + 1 - 0 :=
    unclosed_record { w with fds := insert (freeFd w.fds) w.fds } (.fopen name (freeFd w.fds))
  omega

theorem OnlySends.unclosed (h : OnlySends conn w w') : w'.unclosed = w.unclosed := by
  obtain ⟨calls, hlog, hcalls⟩ := h.log
  have hnone : ∀ p : Call → Bool, (∀ accepted, p (.send conn accepted) = false) →
      calls.countP p = 0 := by
    intro p hp
    rw [List.countP_eq_zero]
    intro c hc
    obtain ⟨accepted, rfl⟩ := hcalls c hc
    simp [hp]
  simp only [Worker.unclosed, hlog, List.countP_append, hnone Call.isFopen fun _ => rfl,
    hnone Call.isFclose fun _ => rfl, Nat.add_zero]

theorem OnlySends.failedSends_le (h : OnlySends conn w w') : w.failedSends ≤ w'.failedSends := by
  obtain ⟨calls, hlog, -⟩ := h.log
  rw [Worker.failedSends, Worker.failedSends, hlog, List.countP_append]
  push_cast
  omega

theorem failedSends_send {bytes : Bytes} (h : (w.send conn bytes).1 = false) :
    (w.send conn bytes).2.failedSends = w.failedSends + 1 := by
  unfold Worker.send at h ⊢
  split
  · exact w.failedSends_record _
  · next hopen =>
    rw [if_neg hopen] at h
    cases hsends : w.sends with
    | nil =>
      rw [hsends] at h
      cases h
    | cons outcome rest =>
      rw [hsends] at h
      cases outcome with
      | none => exact { w with sends := rest }.failedSends_record (.send conn none)
      | some n => cases h

namespace Ledger

theorem refl (conn : Int) (w : Worker) : Ledger conn w w :=
  ⟨Finset.erase_subset _ _, by omega, le_rfl, by omega⟩

theorem trans (h : Ledger conn w w') (h' : Ledger conn w' w'') : Ledger conn w w'' := by
  have hcard := h.card
  have hcard' := h'.card
  have hfailed := h.failed
  have hfailed' := h'.failed
  refine ⟨?_, by omega, h.opened.trans h'.opened, by omega⟩
  intro x hx
  exact h'.kept (Finset.mem_erase.mpr ⟨(Finset.mem_erase.mp hx).1, h.kept hx⟩)

theorem sends (h : OnlySends conn w w') : Ledger conn w w' := by
  have hunclosed := h.unclosed
  have hfailed := h.failedSends_le
  refine ⟨?_, ?_, hunclosed.ge, by omega⟩
  · rw [h.fds]
    exact Finset.erase_subset _ _
  · rw [h.fds, hunclosed]
    omega

/-- A call on no descriptor but the connection's. -/
theorem record (w : Worker) (hopen : c.isFopen = false) (hclose : c.isFclose = false)
    (hsend : c.isFailedSend = false) {fds : Finset Int} (hfds : fds.erase conn = w.fds.erase conn) :
    Ledger conn w ({ w with fds := fds }.record c) := by
  have hunclosed := Worker.unclosed_record { w with fds := fds } c
  have hfailed := Worker.failedSends_record { w with fds := fds } c
  rw [hopen, hclose] at hunclosed
  rw [hsend] at hfailed
  have hsame : ({ w with fds := fds }.record c).unclosed = w.unclosed := by
    rw [hunclosed]
    exact (Int.sub_zero _).trans (Int.add_zero _)
  have hsame' : ({ w with fds := fds }.record c).failedSends = w.failedSends := by
    rw [hfailed]
    exact Int.add_zero _
  refine ⟨?_, ?_, hsame.ge, by omega⟩
  · rw [← hfds]
    exact Finset.erase_subset _ _
  · rw [hsame]
    show ((fds.erase conn).card : Int) = _
    rw [hfds]
    omega

theorem close (conn : Int) (w : Worker) : Ledger conn w (w.close conn) :=
  record w rfl rfl rfl (Finset.erase_idem)

theorem setTimeout (conn : Int) (w : Worker) (seconds : Nat) :
    Ledger conn w (w.record (.setTimeout conn seconds)) := record w rfl rfl rfl rfl

theorem recv (conn : Int) (w : Worker) : Ledger conn w (w.record (.recv conn)) :=
  record w rfl rfl rfl rfl

theorem closedFile {v : Worker} (hnew : fd ∉ w.fds) (hfds : v.fds = insert fd w.fds)
    (hopened : v.unclosed = w.unclosed + 1) (hfailed : w.failedSends ≤ v.failedSends) :
    Ledger conn w (v.fclose fd) := by
  have hsame : v.fds.erase fd = w.fds := by rw [hfds, Finset.erase_insert hnew]
  have hunclosed := v.unclosed_fclose fd
  have hnoted : (v.fclose fd).failedSends = v.failedSends :=
    { v with fds := v.fds.erase fd }.failedSends_record (.fclose fd)
  refine ⟨?_, ?_, by omega, by omega⟩
  · show _ ⊆ v.fds.erase fd
    rw [hsame]
    exact Finset.erase_subset _ _
  · show (((v.fds.erase fd).erase conn).card : Int) = _
    rw [hsame, hunclosed]
    omega

theorem leftFile {v : Worker} (hnew : fd ∉ w.fds) (hne : fd ≠ conn) (hfds : v.fds = insert fd w.fds)
    (hopened : v.unclosed = w.unclosed + 1) (hfailed : w.failedSends + 1 ≤ v.failedSends) :
    Ledger conn w v := by
  have herase : v.fds.erase conn = insert fd (w.fds.erase conn) := by
    rw [hfds, Finset.erase_insert_of_ne hne]
  refine ⟨?_, ?_, by omega, by omega⟩
  · rw [hfds]
    exact (Finset.erase_subset _ _).trans (Finset.subset_insert _ _)
  · rw [herase, Finset.card_insert_of_notMem fun hmem => hnew (Finset.mem_of_mem_erase hmem)]
    push_cast
    omega

/-- A file that is sent is closed; one whose header cannot be sent stays open. -/
theorem staticFile {req : HttpRequest} {filepath : Bytes} {disk : Disk} (hopen : conn ∈ w.fds)
    (hok : sendStaticFile conn req filepath disk w = .ok w') : Ledger conn w w' := by
  cases hfile : disk.fopen filepath with
  | none =>
    rw [sendStaticFile, hfile] at hok
    cases hok
    exact (sends (OnlySends.errorResponse conn 404 _ w)).trans (close conn _)
  | some file =>
    obtain ⟨dot, hdot⟩ := exists_suffix (sendStaticFile_suffix hok (by simp [hfile]))
    rw [sendStaticFile_found hfile hdot] at hok
    generalize fileResponse req filepath dot file = res at hok
    have hnew := Worker.freeFd_notMem w.fds
    have hne : Worker.freeFd w.fds ≠ conn := fun heq => hnew (heq ▸ hopen)
    have hopened := w.unclosed_opened filepath res
    have hsame : (w.opened filepath res).failedSends = w.failedSends :=
      { w with fds := insert (Worker.freeFd w.fds) w.fds }.failedSends_record
        (.fopen filepath (Worker.freeFd w.fds))
    have hsend := OnlySends.send conn (w.opened filepath res) (fileHeader res)
    dsimp only at hok
    split at hok
    · cases hok
      have hall := hsend.trans (OnlySends.fileData conn file.data _)
      generalize sendFileData conn file.data _ = v at hall ⊢
      exact closedFile hnew hall.fds (hall.unclosed.trans hopened)
        (hsame.ge.trans hall.failedSends_le)
    · next hfails =>
      cases hok
      have hnoted := failedSends_send (Bool.eq_false_iff.mpr hfails)
      have herror := OnlySends.errorResponse conn 404 (ascii "Not Found")
        ((w.opened filepath res).send conn (fileHeader res)).2
      have hall := hsend.trans herror
      have hmore := herror.failedSends_le
      generalize sendErrorResponse conn 404 _ _ = v at hall hmore ⊢
      exact (leftFile hnew hne hall.fds (hall.unclosed.trans hopened) (by omega)).trans
        (close conn v)

theorem getRequest {req req' : HttpRequest} {homeDir : Bytes} {disk : Disk} (hopen : conn ∈ w.fds)
    (h : handleGetRequest conn req homeDir disk w = .ok (req', w')) : Ledger conn w w' := by
  obtain ⟨path, -, -, ⟨-, rfl⟩ | ⟨-, hfile⟩⟩ := handleGetRequest_cases h
  · exact (sends (OnlySends.errorResponse conn 404 _ w)).trans (close conn _)
  · exact staticFile hopen hfile

theorem answer {req req' : HttpRequest} {homeDir : Bytes} {disk : Disk} (hopen : conn ∈ w.fds)
    (h : MinhServer.answer conn req homeDir disk w = .ok (req', w')) : Ledger conn w w' := by
  rcases answer_cases h with ⟨-, hget⟩ | ⟨-, -, rfl⟩ | ⟨-, -, rfl⟩
  · exact getRequest hopen hget
  · exact refl conn w'
  · exact sends (OnlySends.errorResponse conn 501 _ w)

theorem httpRequest {req req' : HttpRequest} {request homeDir : Bytes} {disk : Disk}
    (hopen : conn ∈ w.fds)
    (h : handleHttpRequest conn req request homeDir disk w = .ok (req', w')) :
    Ledger conn w w' := by
  obtain ⟨code, parsed, -, ⟨-, -, rfl⟩ | ⟨-, v, hanswer, rfl⟩⟩ := handleHttpRequest_cases h
  · exact (sends (OnlySends.errorResponse conn 400 _ w)).trans (close conn _)
  · have hv := answer hopen hanswer
    split
    · exact hv.trans (close conn v)
    · exact hv

theorem serveRequests {mode : Mode} {homeDir : Bytes} {disk : Disk} {p : Peer Byte}
    {served : List HttpRequest} {s : Session}
    (h : MinhServer.serveRequests mode conn homeDir disk p w served = .ok s) :
    Ledger conn w s.worker := by
  induction p, w using loop_induction mode conn generalizing served with
  | last p w p' hlast =>
    rw [serveRequests_last hlast, Except.ok.injEq] at h
    rw [← h]
    exact (recv conn w).trans (close conn _)
  | http p w r p' hr ht htype ih =>
    rw [serveRequests_http hr ht htype] at h
    obtain ⟨⟨req, w'⟩, hhandle, h⟩ := bind_eq_ok.mp h
    have hanswer := (recv conn w).trans (httpRequest (open_of_receive hr) hhandle)
    dsimp only at h
    split at h
    · rw [Except.ok.injEq] at h
      rw [← h]
      exact hanswer.trans (close conn w')
    · exact hanswer.trans ((setTimeout conn w' 5).trans (ih _ h))
  | other p w r p' hr ht htype ih =>
    rw [serveRequests_other hr ht htype] at h
    exact (recv conn w).trans ((setTimeout conn _ 5).trans (ih _ h))

end Ledger
end Calls

/-- From `s₀` to `s`: what was open at the start is open and no client's; and the descriptors are
counted. -/
structure Conserved (s₀ s : SelectState) : Prop where
  listen : s.server.listenFd = s₀.server.listenFd
  base : s₀.worker.fds ⊆ s.worker.fds
  clients : ∀ fd ∈ s.server.clientFds, fd ∉ s₀.worker.fds
  card : (s.worker.fds.card : Int) =
    s₀.worker.fds.card + s.server.clientCount + (s.worker.unclosed - s₀.worker.unclosed)
  opened : s₀.worker.unclosed ≤ s.worker.unclosed
  failed : s.worker.unclosed - s₀.worker.unclosed ≤ s.worker.failedSends - s₀.worker.failedSends

section Loop
variable {s₀ s t u : SelectState} {homeDir : Bytes} {turn : Turn} {i : Fin maxClients}

theorem Worker.close_counts (w : Worker) (fd : Int) :
    (w.close fd).unclosed = w.unclosed ∧ (w.close fd).failedSends = w.failedSends := by
  have hunclosed : (w.close fd).unclosed = w.unclosed + 0 - 0 :=
    unclosed_record { w with fds := w.fds.erase fd } (.close fd)
  have hfailed : (w.close fd).failedSends = w.failedSends + 0 :=
    failedSends_record { w with fds := w.fds.erase fd } (.close fd)
  omega

/-- The sets of descriptors do not matter. -/
theorem Conserved.withServer (h : Conserved s₀ s) {server : ServerState}
    (hlisten : server.listenFd = s.server.listenFd) (hclients : server.clients = s.server.clients)
    (hcount : server.clientCount = s.server.clientCount) : Conserved s₀ (s.withServer server) := by
  have hfds : server.clientFds = s.server.clientFds := by
    unfold ServerState.clientFds ServerState.fd
    rw [hclients]
  refine ⟨hlisten.trans h.listen, h.base, ?_, ?_, h.opened, h.failed⟩
  · show ∀ fd ∈ server.clientFds, fd ∉ s₀.worker.fds
    rw [hfds]
    exact h.clients
  · show (s.worker.fds.card : Int) = s₀.worker.fds.card + server.clientCount + _
    rw [hcount]
    exact h.card

/-- A slot is cleared when its session, if it had one, has closed its descriptor. -/
theorem Conserved.remove (h : Conserved s₀ s) (hs : InOrder s) (hi : 0 ≤ s.server.fd i)
    {w : Worker} (hw : Ledger (s.server.fd i) s.worker w) {events : List Event} {m : FdSet} :
    Conserved s₀ ⟨s.server.withoutClient i m, w.close (s.server.fd i), events⟩ := by
  have hheld : s.server.fd i ∈ s.server.clientFds := held_of_used hi
  have hopen := hs.books.clients_open hheld
  have hfree := h.clients _ hheld
  obtain ⟨hunclosed, hfailed⟩ := w.close_counts (s.server.fd i)
  have hcard := h.card
  have hcard' := hw.card
  have hone := Finset.card_erase_add_one hopen
  have hopened := h.opened.trans hw.opened
  have hnoted := h.failed
  have hnoted' := hw.failed
  have hcount : (((w.close (s.server.fd i)).fds.card : Int)) =
      s₀.worker.fds.card + (s.server.clientCount - 1) +
        ((w.close (s.server.fd i)).unclosed - s₀.worker.unclosed) := by
    rw [hunclosed]
    exact (by omega : ((w.fds.erase (s.server.fd i)).card : Int) =
      s₀.worker.fds.card + (s.server.clientCount - 1) + (w.unclosed - s₀.worker.unclosed))
  rw [← hunclosed] at hopened
  have hbound : (w.close (s.server.fd i)).unclosed - s₀.worker.unclosed ≤
      (w.close (s.server.fd i)).failedSends - s₀.worker.failedSends := by
    rw [hunclosed, hfailed]
    omega
  refine ⟨h.listen, ?_, ?_, hcount, hopened, hbound⟩
  · intro fd hfd
    have hne : fd ≠ s.server.fd i := fun heq => hfree (heq ▸ hfd)
    exact Finset.mem_erase_of_ne_of_mem hne
      (hw.kept (Finset.mem_erase_of_ne_of_mem hne (h.base hfd)))
  · intro fd hfd
    have hmem : fd ∈ s.server.clientFds.erase (s.server.fd i) :=
      ServerState.clientFds_withoutClient hs.books.distinct i m ▸ hfd
    exact h.clients fd (Finset.mem_of_mem_erase hmem)

theorem Conserved.removeClient (h : Conserved s₀ s) (hs : InOrder s) (hi : 0 ≤ s.server.fd i)
    (hremove : removeClientFromSelect i s = .ok t) : Conserved s₀ t := by
  obtain ⟨m, -, rfl⟩ := removeClient_spec hi hremove
  exact h.remove hs hi (.refl _ _)

theorem Conserved.serve (h : Conserved s₀ s) (hs : InOrder s) (hi : 0 ≤ s.server.fd i)
    {visit : Visit} (hserve : serveClient homeDir visit s i = .ok t) : Conserved s₀ t := by
  rw [serveClient_eq] at hserve
  obtain ⟨session, hsession, hserve⟩ := bind_eq_ok.mp hserve
  obtain ⟨m, -, rfl⟩ := removeClient_spec (s := (s.notify _).withWorker session.worker) hi hserve
  have hledger : Ledger (s.server.fd i) { s.worker with sends := visit.sends } session.worker :=
    (Ledger.setTimeout _ _ 30).trans (.serveRequests hsession)
  exact h.remove hs hi ⟨hledger.kept, hledger.card, hledger.opened, hledger.failed⟩

theorem Conserved.refuse (h : Conserved s₀ s) {fd : Int} (hnew : fd ∉ s.worker.fds)
    (events : List Event) :
    Conserved s₀ ⟨s.server, { s.worker with fds := insert fd s.worker.fds }.close fd, events⟩ := by
  obtain ⟨hunclosed, hfailed⟩ :=
    Worker.close_counts { s.worker with fds := insert fd s.worker.fds } fd
  have hsame : ({ s.worker with fds := insert fd s.worker.fds }.close fd).fds = s.worker.fds :=
    Finset.erase_insert hnew
  refine ⟨h.listen, ?_, h.clients, ?_, ?_, ?_⟩
  · rw [hsame]
    exact h.base
  · rw [hsame, hunclosed]
    exact h.card
  · rw [hunclosed]
    exact h.opened
  · rw [hunclosed, hfailed]
    exact h.failed

theorem Conserved.admit (h : Conserved s₀ s) {fd now : Int} (hpos : 0 < fd)
    (hnew : fd ∉ s.worker.fds) {i : Fin maxClients} (hi : freeSlot s.server = some i) {m : FdSet}
    {w : Worker} (hfds : w.fds = insert fd s.worker.fds)
    (hunclosed : w.unclosed = s.worker.unclosed)
    (hfailed : w.failedSends = s.worker.failedSends) (events : List Event) :
    Conserved s₀ ⟨s.server.withClient i ⟨fd, now⟩ m, w, events⟩ := by
  have hcard := h.card
  have hclients : (s.server.withClient i ⟨fd, now⟩ m).clientFds = insert fd s.server.clientFds :=
    ServerState.clientFds_withClient (fd_of_freeSlot hi) hpos.le m
  refine ⟨h.listen, ?_, ?_, ?_, ?_, ?_⟩
  · rw [hfds]
    exact fun x hx => Finset.mem_insert_of_mem (h.base hx)
  · rw [hclients]
    intro x hx
    rcases Finset.mem_insert.mp hx with rfl | hmem
    · exact fun hbase => hnew (h.base hbase)
    · exact h.clients x hmem
  · show (w.fds.card : Int) = s₀.worker.fds.card + (s.server.clientCount + 1) + _
    rw [hfds, Finset.card_insert_of_notMem hnew, hunclosed]
    push_cast
    omega
  · rw [hunclosed]
    exact h.opened
  · rw [hunclosed, hfailed]
    exact h.failed

theorem Conserved.addClient (h : Conserved s₀ s) {fd now : Int} (hpos : 0 < fd)
    (hnew : fd ∉ s.worker.fds) {index : Option (Fin maxClients)}
    (hadd : addClientToSelect fd now (s.open_ fd) = .ok (index, t)) : Conserved s₀ t := by
  rcases addClient_cases hadd with ⟨-, ⟨-, rfl⟩ | ⟨-, -, rfl⟩⟩ | ⟨i, m, -, -, hi, -, rfl⟩
  · exact h.refuse hnew _
  · exact h.refuse hnew _
  · refine h.admit hpos hnew hi rfl ?_ ?_ _
    · have hopened : _ = s.worker.unclosed + 0 - 0 :=
        Worker.unclosed_record { s.worker with fds := insert fd s.worker.fds } (.setTimeout fd 30)
      exact hopened.trans (by omega)
    · exact Worker.failedSends_record { s.worker with fds := insert fd s.worker.fds }
        (.setTimeout fd 30)

/-- One call. -/
theorem Conserved.call (h : Conserved s₀ s) (hs : InOrder s) (hfresh : turn.AcceptsFresh s)
    (hcall : handleSelectEvents homeDir turn s = .ok t) : Conserved s₀ t := by
  refine hs.call_rule hfresh hcall h ?_ ?_ ?_ ?_
  · exact fun u _ hu => hu.withServer rfl rfl rfl
  · exact fun u v i horder hu hi hremove => hu.removeClient horder hi hremove
  · exact fun u v i horder hu hi hserve => hu.serve horder hi hserve
  · exact fun u v fd _ _ hu hpos hnew hadd => hu.addClient hpos hnew hadd

theorem Conserved.start (hempty : s.server.clientFds = ∅) (hcount : s.server.clientCount = 0) :
    Conserved s s := by
  refine ⟨rfl, Finset.Subset.refl _, ?_, ?_, le_rfl, by omega⟩
  · rw [hempty]
    simp
  · rw [hcount]
    omega

theorem empty_of_init (h : (selectLoop homeDir).init s) :
    s.server.clientFds = ∅ ∧ s.server.clientCount = 0 := by
  obtain ⟨mode, setup, before, hmode, -, h⟩ := h
  obtain ⟨sockfd, -, hserver, -⟩ := initSocket_select hmode h
  obtain ⟨-, -, -, -, hcount, hfd⟩ := ServerState.listening_eq hserver
  exact ⟨ServerState.clientFds_empty hfd, hcount⟩

theorem conserved_invariant (hinit : (selectLoop homeDir).init s₀) :
    ((selectLoop homeDir).startingAt s₀).Invariant (fun _ _ => True)
      fun s => InOrder s ∧ Conserved s₀ s where
  init := by
    rintro s rfl
    obtain ⟨hempty, hcount⟩ := empty_of_init hinit
    exact ⟨(inOrder_invariant homeDir).init s hinit, .start hempty hcount⟩
  step := by
    rintro s turn t ⟨hs, hkept⟩ - hstep
    obtain ⟨hfresh, hcall⟩ := selectLoop_step hstep
    exact ⟨hs.handleSelectEvents hfresh hcall, hkept.call hs hfresh hcall⟩

theorem Bookkeeping.card_clientFds {server : ServerState} {fds : Finset Int}
    (h : Bookkeeping server fds) : (server.clientFds.card : Int) = server.clientCount := by
  rw [h.count, ServerState.clientFds, card_held h.distinct]
  rfl

theorem Conserved.fds_eq (h : Conserved s₀ s) (hs : InOrder s)
    (hclosed : s.worker.unclosed = s₀.worker.unclosed) :
    s.worker.fds = s₀.worker.fds ∪ s.server.clientFds := by
  have hsub : s₀.worker.fds ∪ s.server.clientFds ⊆ s.worker.fds :=
    Finset.union_subset h.base hs.books.clients_open
  have hdisjoint : Disjoint s₀.worker.fds s.server.clientFds := by
    rw [Finset.disjoint_right]
    exact h.clients
  have hcard := h.card
  have hclients := hs.books.card_clientFds
  have hunion := Finset.card_union_of_disjoint hdisjoint
  exact (Finset.eq_of_subset_of_card_le hsub (by omega)).symm

/-- At any time the descriptors that were open when the server began to listen are open and no
client has one of them; all the others belong to one client each or are files that were opened and
not closed; and a file is left open only when a `send` failed. While none fails, the clients have
all the descriptors that are not the start's. -/
theorem descriptors_conserved (homeDir : Bytes) (s₀ s : SelectState)
    (hinit : (selectLoop homeDir).init s₀)
    (h : ((selectLoop homeDir).startingAt s₀).Reachable s) :
    s₀.worker.fds ⊆ s.worker.fds ∧ Disjoint s₀.worker.fds s.server.clientFds ∧
      (s.worker.fds.card : Int) = s₀.worker.fds.card + s.server.clientCount +
        (s.worker.unclosed - s₀.worker.unclosed) ∧
      s₀.worker.unclosed ≤ s.worker.unclosed ∧
      s.worker.unclosed - s₀.worker.unclosed ≤ s.worker.failedSends - s₀.worker.failedSends ∧
      (s.worker.failedSends = s₀.worker.failedSends →
        s.worker.fds = s₀.worker.fds ∪ s.server.clientFds) := by
  obtain ⟨hs, hkept⟩ := (conserved_invariant hinit).holds h
  refine ⟨hkept.base, ?_, hkept.card, hkept.opened, hkept.failed, fun hnone => ?_⟩
  · rw [Finset.disjoint_right]
    exact hkept.clients
  · have hopened := hkept.opened
    have hfailed := hkept.failed
    exact hkept.fds_eq hs (by omega)

/-- While the second of two clients is there, no other descriptor is open. -/
theorem descriptors_conserved_two : ∃ s₀ s : SelectState,
    s.events = [.connected 0 4, .connected 1 5, .served 0 4, .disconnected 0 4] ∧
      s.worker.fds = s₀.worker.fds ∪ s.server.clientFds := by
  obtain ⟨s, hrun, hevents, hlog⟩ := exists_two_clients
  have hnone : s.worker.failedSends = (startedIn (ascii "select")).worker.failedSends := by
    rw [Worker.failedSends, hlog]
    rfl
  exact ⟨_, s, hevents, (descriptors_conserved _ _ s (init_started _) hrun).2.2.2.2.2 hnone⟩

end Loop

/-- Every client's connection is closed and then the listening socket; the table stays. -/
def cleanupSelectServer (s : SelectState) : SelectState :=
  let s := (List.finRange maxClients).foldl
    (fun s i => if 0 < s.server.fd i then s.close (s.server.fd i) else s) s
  if 0 < s.server.listenFd then s.close s.server.listenFd else s

/-- The descriptors of the clients, in the order of their slots. -/
def ServerState.connections (server : ServerState) : List Int :=
  ((List.finRange maxClients).map server.fd).filter (0 < ·)

/-- What is left after each of `fds` was closed. -/
def SelectState.closeAll (s : SelectState) (fds : List Int) : SelectState :=
  s.withWorker { s.worker with
    fds := s.worker.fds \ fds.toFinset
    log := s.worker.log ++ fds.map .close }

section Cleanup
variable {s₀ s before : SelectState}

theorem SelectState.closeAll_nil (s : SelectState) : s.closeAll [] = s := by
  simp [closeAll, withWorker]

theorem SelectState.closeAll_cons (s : SelectState) (fd : Int) (fds : List Int) :
    (s.close fd).closeAll fds = s.closeAll (fd :: fds) := by
  have hfds : s.worker.fds.erase fd \ fds.toFinset = s.worker.fds \ (fd :: fds).toFinset := by
    ext x
    simp only [Finset.mem_sdiff, Finset.mem_erase, List.toFinset_cons, Finset.mem_insert]
    tauto
  simp only [closeAll, close, withWorker, Worker.close, Worker.record, hfds, List.map_cons,
    List.append_assoc, List.singleton_append]

theorem SelectState.closeAll_append (s : SelectState) (fds fds' : List Int) :
    (s.closeAll fds).closeAll fds' = s.closeAll (fds ++ fds') := by
  induction fds generalizing s with
  | nil => rw [closeAll_nil, List.nil_append]
  | cons fd fds ih => rw [← closeAll_cons, ih, closeAll_cons, List.cons_append]

theorem foldl_close (l : List (Fin maxClients)) (s : SelectState) :
    l.foldl (fun s i => if 0 < s.server.fd i then s.close (s.server.fd i) else s) s =
      s.closeAll ((l.map s.server.fd).filter (0 < ·)) := by
  induction l generalizing s with
  | nil => exact s.closeAll_nil.symm
  | cons i l ih =>
    rw [List.foldl_cons, ih, List.map_cons]
    by_cases hfd : 0 < s.server.fd i
    · rw [if_pos hfd, List.filter_cons_of_pos (by simpa using hfd)]
      exact s.closeAll_cons _ _
    · rw [if_neg hfd, List.filter_cons_of_neg (by simpa using hfd)]

theorem cleanupSelectServer_eq (hlisten : 0 < s.server.listenFd) :
    cleanupSelectServer s = s.closeAll (s.server.connections ++ [s.server.listenFd]) := by
  unfold cleanupSelectServer
  dsimp only
  rw [foldl_close]
  have hsame : (s.closeAll s.server.connections).server.listenFd = s.server.listenFd := rfl
  rw [← ServerState.connections, hsame, if_pos hlisten, ← s.closeAll_append,
    ← (s.closeAll s.server.connections).closeAll_cons, SelectState.closeAll_nil]

theorem Bookkeeping.mem_connections {server : ServerState} {fds : Finset Int}
    (h : Bookkeeping server fds) {fd : Int} :
    fd ∈ server.connections ↔ fd ∈ server.clientFds := by
  rw [ServerState.connections, List.mem_filter, List.mem_map, ServerState.clientFds, mem_held]
  constructor
  · rintro ⟨⟨i, -, rfl⟩, hpos⟩
    exact ⟨(of_decide_eq_true hpos).le, i, rfl⟩
  · rintro ⟨hfd, i, rfl⟩
    exact ⟨⟨i, List.mem_finRange i, rfl⟩, decide_eq_true (h.positive i hfd)⟩

theorem Bookkeeping.nodup_connections {server : ServerState} {fds : Finset Int}
    (h : Bookkeeping server fds) : server.connections.Nodup := by
  rw [ServerState.connections, List.filter_map]
  refine List.Nodup.map_on ?_ ((List.nodup_finRange maxClients).filter _)
  intro i hi j _ heq
  have hpos := of_decide_eq_true (List.mem_filter.mp hi).2
  exact h.distinct i j (le_of_lt hpos) heq

theorem cleanupSelectServer_fds (hlisten : 0 < s.server.listenFd) (hs : InOrder s) :
    (cleanupSelectServer s).worker.fds =
      s.worker.fds \ (s.server.clientFds ∪ {s.server.listenFd}) := by
  have hset : (s.server.connections ++ [s.server.listenFd]).toFinset =
      s.server.clientFds ∪ {s.server.listenFd} := by
    ext fd
    rw [List.mem_toFinset, List.mem_append, hs.books.mem_connections, Finset.mem_union,
      List.mem_singleton, Finset.mem_singleton]
  rw [cleanupSelectServer_eq hlisten, ← hset]
  rfl

theorem cleanupSelectServer_card (hlisten : 0 < s.server.listenFd) (hs : InOrder s) :
    ((cleanupSelectServer s).worker.fds.card : Int) =
      s.worker.fds.card - (s.server.clientCount + 1) := by
  have hclosing : s.server.clientFds ∪ {s.server.listenFd} ⊆ s.worker.fds := by
    refine Finset.union_subset hs.books.clients_open ?_
    rw [Finset.singleton_subset_iff]
    exact hs.books.listen_open
  have hunion : (s.server.clientFds ∪ {s.server.listenFd}).card = s.server.clientFds.card + 1 := by
    rw [Finset.card_union_of_disjoint
      (Finset.disjoint_singleton_right.mpr hs.books.clients_ne_listen), Finset.card_singleton]
  have hclients := hs.books.card_clientFds
  have hsub := Finset.card_sdiff_add_card_eq_card hclosing
  rw [cleanupSelectServer_fds hlisten hs]
  omega

/-- Each client and the listening socket is closed once. -/
theorem cleanupSelectServer_closes (hlisten : 0 < s.server.listenFd) (hs : InOrder s) :
    ∃ closed : List Int, closed.Nodup ∧
      (∀ fd, fd ∈ closed ↔ fd ∈ s.server.clientFds ∨ fd = s.server.listenFd) ∧
      (cleanupSelectServer s).worker.log = s.worker.log ++ closed.map .close := by
  refine ⟨s.server.connections ++ [s.server.listenFd], ?_, fun fd => ?_, ?_⟩
  · refine List.nodup_append.mpr ⟨hs.books.nodup_connections, List.nodup_singleton _, ?_⟩
    rintro fd hfd _ hlast rfl
    rw [List.mem_singleton.mp hlast, hs.books.mem_connections] at hfd
    exact hs.books.clients_ne_listen hfd
  · rw [List.mem_append, hs.books.mem_connections, List.mem_singleton]
  · rw [cleanupSelectServer_eq hlisten]
    rfl

/-- A run from a successful `initSocket` to `cleanupSelectServer`: each client's connection and
the listening socket is closed exactly once, and nothing else; what the process had open before is
open again, and nothing else but the files that failed `send`s left open. -/
theorem cleanup_restores (homeDir mode : Bytes) (setup : SocketSetup) (before s₀ s : SelectState)
    (hmode : sameNoCase mode (ascii "select")) (hevents : before.events = [])
    (hnew : ∀ fd ∈ setup.sockfd, 0 < fd ∧ fd ∉ before.worker.fds)
    (hinit : initSocket mode setup before = .ok (0, s₀))
    (h : ((selectLoop homeDir).startingAt s₀).Reachable s) :
    (∃ closed : List Int, closed.Nodup ∧
        (∀ fd, fd ∈ closed ↔ fd ∈ s.server.clientFds ∨ fd = s.server.listenFd) ∧
        (cleanupSelectServer s).worker.log = s.worker.log ++ closed.map .close) ∧
      before.worker.fds ⊆ (cleanupSelectServer s).worker.fds ∧
      ((cleanupSelectServer s).worker.fds.card : Int) =
        before.worker.fds.card + (s.worker.unclosed - before.worker.unclosed) ∧
      s.worker.unclosed - before.worker.unclosed ≤
        s.worker.failedSends - before.worker.failedSends ∧
      (s.worker.failedSends = before.worker.failedSends →
        (cleanupSelectServer s).worker.fds = before.worker.fds) := by
  have hloop : (selectLoop homeDir).init s₀ := ⟨mode, setup, before, hmode, hevents, hinit⟩
  obtain ⟨hs, hkept⟩ := (conserved_invariant hloop).holds h
  obtain ⟨sockfd, hsockfd, hserver, hworker, -⟩ := initSocket_select hmode hinit
  obtain ⟨hpos, hclosed⟩ := hnew sockfd hsockfd
  obtain ⟨-, hlisten₀, -⟩ := ServerState.listening_eq hserver
  have hlisten : s.server.listenFd = sockfd := hkept.listen.trans hlisten₀
  have hfds₀ : s₀.worker.fds = insert sockfd before.worker.fds := by rw [hworker]; rfl
  have hunclosed : s₀.worker.unclosed = before.worker.unclosed := by rw [hworker]; rfl
  have hfailed : s₀.worker.failedSends = before.worker.failedSends := by rw [hworker]; rfl
  have hopen : 0 < s.server.listenFd := hlisten ▸ hpos
  have hcard := hkept.card
  rw [hfds₀, Finset.card_insert_of_notMem hclosed, hunclosed] at hcard
  have hbase : before.worker.fds ⊆ (cleanupSelectServer s).worker.fds := by
    intro fd hfd
    have hfd₀ : fd ∈ s₀.worker.fds := hfds₀ ▸ Finset.mem_insert_of_mem hfd
    rw [cleanupSelectServer_fds hopen hs, Finset.mem_sdiff, Finset.mem_union,
      Finset.mem_singleton, hlisten, not_or]
    exact ⟨hkept.base hfd₀, fun hclient => hkept.clients fd hclient hfd₀,
      fun heq => hclosed (heq ▸ hfd)⟩
  have hcount : ((cleanupSelectServer s).worker.fds.card : Int) =
      before.worker.fds.card + (s.worker.unclosed - before.worker.unclosed) := by
    have hafter := cleanupSelectServer_card hopen hs
    push_cast at hcard
    omega
  have hleft : s.worker.unclosed - before.worker.unclosed ≤
      s.worker.failedSends - before.worker.failedSends := by
    rw [← hunclosed, ← hfailed]
    exact hkept.failed
  refine ⟨cleanupSelectServer_closes hopen hs, hbase, hcount, hleft, fun hnone => ?_⟩
  exact (Finset.eq_of_subset_of_card_le hbase (by omega)).symm

/-- With the second of two clients still there. -/
theorem cleanup_restores_two : ∃ s : SelectState,
    s.events = [.connected 0 4, .connected 1 5, .served 0 4, .disconnected 0 4] ∧
      (cleanupSelectServer s).worker.fds = {0, 1, 2} := by
  obtain ⟨s, hrun, hevents, hlog⟩ := exists_two_clients
  have hnew : ∀ fd ∈ some 3, 0 < fd ∧ fd ∉ ({0, 1, 2} : Finset Int) := by decide
  have hnone : s.worker.failedSends = 0 := by
    rw [Worker.failedSends, hlog]
    rfl
  have hstart := initSocket_standard (ascii "select")
  have hkept := (cleanup_restores _ _ _ _ _ s (by decide +kernel) rfl hnew hstart hrun).2.2.2.2
  exact ⟨s, hevents, hkept hnone⟩

end Cleanup
end MinhServer
