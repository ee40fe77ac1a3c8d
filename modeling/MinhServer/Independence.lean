import MinhServer.Rounds

namespace MinhServer
open CString Wire

def Call.isSend : Call → Bool
  | .send _ _ => true
  | .setTimeout _ _ | .recv _ | .fopen _ _ | .fclose _ | .close _ => false

/-- The sends from `w` to `w'`, with the bytes that were accepted. -/
def sentBetween (w w' : Worker) : List Call := (w'.log.drop w.log.length).filter Call.isSend

/-- The parsed request, the decision to close and the sends of an answer. -/
def observed (w : Worker) (result : HttpRequest × Worker) : HttpRequest × Bool × List Call :=
  (result.1, shouldCloseConnection result.1, sentBetween w result.2)

/-- `w` and `v` came from `w₀` and `v₀` with the same sends, and the connection is in the same
state in both. -/
structure Alike (conn : Int) (w₀ v₀ w v : Worker) : Prop where
  sends : w.sends = v.sends
  fds : conn ∈ w.fds ↔ conn ∈ v.fds
  log : ∃ calls calls', w.log = w₀.log ++ calls ∧ v.log = v₀.log ++ calls' ∧
    calls.filter Call.isSend = calls'.filter Call.isSend

namespace Alike
variable {conn : Int} {w₀ v₀ w v : Worker}

theorem start (hsends : w₀.sends = v₀.sends) (hw : conn ∈ w₀.fds) (hv : conn ∈ v₀.fds) :
    Alike conn w₀ v₀ w₀ v₀ := ⟨hsends, iff_of_true hw hv, [], [], by simp, by simp, rfl⟩

theorem sentBetween_eq (h : Alike conn w₀ v₀ w v) : sentBetween w₀ w = sentBetween v₀ v := by
  obtain ⟨calls, calls', hlog, hlog', hsent⟩ := h.log
  rw [sentBetween, sentBetween, hlog, hlog', List.drop_left, List.drop_left, hsent]

theorem record (h : Alike conn w₀ v₀ w v) {c d : Call}
    (hcd : [c].filter Call.isSend = [d].filter Call.isSend) :
    Alike conn w₀ v₀ (w.record c) (v.record d) := by
  obtain ⟨calls, calls', hlog, hlog', hsent⟩ := h.log
  refine ⟨h.sends, h.fds, calls ++ [c], calls' ++ [d], ?_, ?_, ?_⟩
  · rw [Worker.record, hlog, List.append_assoc]
  · rw [Worker.record, hlog', List.append_assoc]
  · rw [List.filter_append, List.filter_append, hsent, hcd]

theorem withFds (h : Alike conn w₀ v₀ w v) {fds fds' : Finset Int}
    (hfds : conn ∈ fds ↔ conn ∈ fds') :
    Alike conn w₀ v₀ { w with fds := fds } { v with fds := fds' } := ⟨h.sends, hfds, h.log⟩

theorem withSends (h : Alike conn w₀ v₀ w v) (sends : List (Option Nat)) :
    Alike conn w₀ v₀ { w with sends := sends } { v with sends := sends } := ⟨rfl, h.fds, h.log⟩

theorem send (h : Alike conn w₀ v₀ w v) (bytes : Bytes) :
    (w.send conn bytes).1 = (v.send conn bytes).1 ∧
      Alike conn w₀ v₀ (w.send conn bytes).2 (v.send conn bytes).2 := by
  unfold Worker.send
  by_cases hopen : conn ∈ v.fds
  · rw [if_neg (not_not.mpr hopen), if_neg (not_not.mpr (h.fds.mpr hopen)), h.sends]
    cases v.sends with
    | nil => exact ⟨rfl, h.record rfl⟩
    | cons outcome rest =>
      cases outcome with
      | none => exact ⟨rfl, (h.withSends rest).record rfl⟩
      | some n => exact ⟨rfl, (h.withSends rest).record rfl⟩
  · rw [if_pos hopen, if_pos (mt h.fds.mp hopen)]
    exact ⟨rfl, h.record rfl⟩

theorem errorResponse (h : Alike conn w₀ v₀ w v) (statusCode : Int) (statusMessage : Bytes) :
    Alike conn w₀ v₀ (sendErrorResponse conn statusCode statusMessage w)
      (sendErrorResponse conn statusCode statusMessage v) := by
  obtain ⟨hsent, hheader⟩ := h.send (errorHeader statusCode statusMessage)
  unfold sendErrorResponse
  dsimp only
  rw [hsent]
  split
  · exact (hheader.send statusMessage).2
  · exact hheader

theorem fileData (h : Alike conn w₀ v₀ w v) (data : Bytes) :
    Alike conn w₀ v₀ (sendFileData conn data w) (sendFileData conn data v) := by
  induction hn : data.length using Nat.strong_induction_on generalizing data w v with
  | _ n ih =>
  rw [sendFileData, sendFileData]
  split
  · exact h
  · next hne =>
    obtain ⟨hsent, hnext⟩ := h.send (data.take 4096)
    have hlt : (data.drop 4096).length < n := by
      have := List.length_pos_iff.mpr hne
      rw [List.length_drop]
      omega
    dsimp only
    rw [hsent]
    split
    · exact ih _ hlt hnext _ rfl
    · exact hnext

theorem close (h : Alike conn w₀ v₀ w v) : Alike conn w₀ v₀ (w.close conn) (v.close conn) :=
  (h.withFds (by simp)).record rfl

/-- A file takes a descriptor other than that of the open connection. -/
theorem opened (h : Alike conn w₀ v₀ w v) (hopen : conn ∈ w.fds) (name : Bytes)
    (res : HttpResponse) : Alike conn w₀ v₀ (w.opened name res) (v.opened name res) := by
  have hfds : conn ∈ insert (Worker.freeFd w.fds) w.fds ↔
      conn ∈ insert (Worker.freeFd v.fds) v.fds :=
    iff_of_true (Finset.mem_insert_of_mem hopen) (Finset.mem_insert_of_mem (h.fds.mp hopen))
  have hlog := ((h.withFds hfds).record (c := .fopen name (Worker.freeFd w.fds))
    (d := .fopen name (Worker.freeFd v.fds)) rfl)
  exact ⟨hlog.sends, hlog.fds, hlog.log⟩

theorem fclose (h : Alike conn w₀ v₀ w v) {fd fd' : Int} (hfd : conn ≠ fd) (hfd' : conn ≠ fd') :
    Alike conn w₀ v₀ (w.fclose fd) (v.fclose fd') :=
  (h.withFds (by simp [hfd, hfd', h.fds])).record rfl

end Alike

/-- Both computations fail alike, or succeed with the same request and workers that are alike. -/
inductive SameAnswer (conn : Int) (w₀ v₀ : Worker) :
    Except Fault (HttpRequest × Worker) → Except Fault (HttpRequest × Worker) → Prop where
  | fault (f : Fault) : SameAnswer conn w₀ v₀ (.error f) (.error f)
  | ok {req w v} (alike : Alike conn w₀ v₀ w v) :
      SameAnswer conn w₀ v₀ (.ok (req, w)) (.ok (req, v))

section Answers
variable {conn : Int} {w₀ v₀ w v : Worker} {homeDir filepath : Bytes} {disk : Disk}
  {req : HttpRequest}

theorem Alike.staticFile (h : Alike conn w₀ v₀ w v) (hopen : conn ∈ w.fds) (r : HttpRequest) :
    SameAnswer conn w₀ v₀ ((sendStaticFile conn req filepath disk w).map fun w => (r, w))
      ((sendStaticFile conn req filepath disk v).map fun v => (r, v)) := by
  cases hfile : disk.fopen filepath with
  | none =>
    simp only [sendStaticFile, hfile]
    exact .ok (h.errorResponse 404 _).close
  | some file =>
    cases hdot : strrchr filepath 46 with
    | none =>
      simp only [sendStaticFile, hfile, hdot]
      exact .fault _
    | some dot =>
      rw [sendStaticFile_found hfile hdot, sendStaticFile_found hfile hdot]
      generalize fileResponse req filepath dot file = res
      obtain ⟨hsent, hheader⟩ := (h.opened hopen filepath res).send (fileHeader res)
      -- the file may get another descriptor in the other run, but never that of the connection
      have hfd : ∀ u : Worker, conn ∈ u.fds → conn ≠ Worker.freeFd u.fds :=
        fun u hu heq => Worker.freeFd_notMem u.fds (heq ▸ hu)
      dsimp only
      rw [hsent]
      split
      · exact .ok ((hheader.fileData file.data).fclose (hfd w hopen) (hfd v (h.fds.mp hopen)))
      · exact .ok (hheader.errorResponse 404 _).close

theorem Alike.getRequest (h : Alike conn w₀ v₀ w v) (hopen : conn ∈ w.fds) :
    SameAnswer conn w₀ v₀ (handleGetRequest conn req homeDir disk w)
      (handleGetRequest conn req homeDir disk v) := by
  unfold handleGetRequest
  split
  · exact .fault _
  · next path hpath =>
    dsimp only
    split
    · exact h.staticFile hopen _
    · exact .ok (h.errorResponse 404 _).close

theorem Alike.answer (h : Alike conn w₀ v₀ w v) (hopen : conn ∈ w.fds) :
    SameAnswer conn w₀ v₀ (answer conn req homeDir disk w) (answer conn req homeDir disk v) := by
  unfold MinhServer.answer
  split
  · exact h.getRequest hopen
  · exact .ok h
  · exact .ok h
  · exact .ok (h.errorResponse 501 _)

theorem Alike.httpRequest (h : Alike conn w₀ v₀ w v) (hopen : conn ∈ w.fds) (text : Bytes) :
    SameAnswer conn w₀ v₀ (handleHttpRequest conn req text homeDir disk w)
      (handleHttpRequest conn req text homeDir disk v) := by
  unfold handleHttpRequest
  cases parseHttpRequest text req with
  | error f => exact .fault f
  | ok parsed =>
    obtain ⟨code, req⟩ := parsed
    simp only [Bind.bind, Except.bind]
    split
    · exact .ok (h.errorResponse 400 _).close
    · have hanswer : SameAnswer conn w₀ v₀ (MinhServer.answer conn req homeDir disk w)
          (MinhServer.answer conn req homeDir disk v) := h.answer hopen
      revert hanswer
      generalize MinhServer.answer conn req homeDir disk w = x
      generalize MinhServer.answer conn req homeDir disk v = y
      intro hanswer
      cases hanswer with
      | fault f => exact .fault f
      | ok alike =>
        dsimp only
        split
        · exact .ok alike.close
        · exact .ok alike

end Answers

/-- A worker that has served nothing, to which the connection is open; its sends will have the
outcomes they have for `w`. -/
structure FreshFor (conn : Int) (w fresh : Worker) : Prop where
  fds : conn ∈ fresh.fds
  sends : fresh.sends = w.sends
  res : fresh.res = {}
  log : fresh.log = []

/-- Whatever was served before, on this connection or another one, a request is answered as a
fresh worker answers it. -/
theorem requests_independent {mode : Mode} {conn : Int} {homeDir text : Bytes} {disk : Disk}
    {start : Peer Byte × Worker} {w fresh : Worker}
    (h : ComesTo mode conn homeDir disk start text w) (hfresh : FreshFor conn w fresh) :
    (handleHttpRequest conn .zeroed text homeDir disk w).map (observed w) =
      (handleHttpRequest conn .zeroed text homeDir disk fresh).map (observed fresh) := by
  obtain ⟨x, -, hhandles⟩ := h
  have hopen := hhandles.opened
  have halike : Alike conn w fresh w fresh := .start hfresh.sends.symm hopen hfresh.fds
  have hanswer : SameAnswer conn w fresh (handleHttpRequest conn .zeroed text homeDir disk w)
      (handleHttpRequest conn .zeroed text homeDir disk fresh) := halike.httpRequest hopen text
  revert hanswer
  generalize handleHttpRequest conn .zeroed text homeDir disk w = x
  generalize handleHttpRequest conn .zeroed text homeDir disk fresh = y
  intro hanswer
  cases hanswer with
  | fault f => rfl
  | ok alike =>
    rw [Except.map, Except.map, observed, observed, alike.sentBetween_eq]

/-- The second request of a connection, after a file that was sent to another client. -/
theorem requests_independent_second :
    let text := ascii "GET /a.txt HTTP/1.1\r\n\r\n" ++ [0]
    let disk : Disk := ⟨fun _ => false, fun _ => none⟩
    ∃ w : Worker, (w.res.statusCode, w.log.head?, w.log.countP Call.isSend) =
        (200, some (.close 4), 2) ∧
      (handleHttpRequest 5 .zeroed text [] disk w).map (observed w) =
        (handleHttpRequest 5 .zeroed text [] disk { fds := {5} }).map (observed { fds := {5} }) := by
  intro text disk
  let first := ascii "OPTIONS * HTTP/1.1\r\nConnection: keep-alive\r\n\r\n"
  let peer : Peer Byte := .ofSegments [first, ascii "GET /a.txt HTTP/1.1\r\n\r\n"]
  let start : Worker := { fds := {5}, res := { statusCode := 200 }, log := [.close 4] }
  have htexts : (recvRequest .blocking peer).1.map RecvBuffer.memory = some (first ++ [0]) ∧
      (recvRequest .blocking (recvRequest .blocking peer).2).1.map RecvBuffer.memory =
        some text := by
    decide +kernel
  let next (v : Worker) : Worker := (v.record (.setTimeout 5 5)).record (.recv 5)
  have hrun : (handleHttpRequest 5 .zeroed (first ++ [0]) [] disk (start.record (.recv 5))).map
      (fun x => ((shouldCloseConnection x.1, decide (5 ∈ x.2.fds), x.2.sends),
        (next x.2).res.statusCode, (next x.2).log.head?,
        (next x.2).log.countP Call.isSend)) =
      .ok ((false, true, []), 200, some (.close 4), 2) := by
    decide +kernel
  obtain ⟨hfirst, hsecond⟩ := htexts
  obtain ⟨⟨req, v⟩, hhandle, hresult⟩ := map_eq_ok.mp hrun
  obtain ⟨hleft, hused⟩ := Prod.mk.inj hresult
  simp only [Prod.mk.injEq, decide_eq_true_eq] at hleft
  obtain ⟨hkeep, hopen, hsends⟩ := hleft
  obtain ⟨r, hr, hmemory⟩ := Option.map_eq_some_iff.mp hfirst
  have hreceive : receive .blocking 5 peer start = (some r, (recvRequest .blocking peer).2) :=
    (if_pos (Finset.mem_singleton_self 5)).trans (Prod.ext hr rfl)
  have hnext : NextRound .blocking 5 [] disk (peer, start) _ :=
    .http hreceive (by rw [hmemory]; decide +kernel) (by rw [hmemory]; exact hhandle) hkeep
  have hreceive' : (receive .blocking 5 (recvRequest .blocking peer).2
      (v.record (.setTimeout 5 5))).1.map RecvBuffer.memory = some text := by
    rw [receive_record, receive, if_pos hopen]
    exact hsecond
  have hcomes : ComesTo .blocking 5 [] disk (peer, start) text (next v) :=
    comesTo_of_next hnext (comesTo_of_handles (handles_of_receive hreceive' (by decide +kernel)))
  refine ⟨next v, hused, requests_independent hcomes ?_⟩
  exact ⟨Finset.mem_singleton_self 5, hsends.symm, rfl, rfl⟩

end MinhServer
