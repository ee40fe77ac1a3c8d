import MinhServer.Delivery
import MinhServer.Library.Replay
import MinhServer.Rounds

namespace MinhServer
open CString Wire Replay

/-- Where a session is: between the rounds (`accepted`, `waiting`), behind the receive of a round
(`received`), inside of its answer, or behind that (`answered`). Once an answer has closed the
connection the loop goes on until it finds it closed (`dropped`, `droppedWaiting`). -/
inductive Phase where
  | accepted
  | waiting
  | received
  | errorBody
  | fileHeader (fd : Int)
  | fileData (fd : Int)
  | fileEnd (fd : Int)
  | refusing
  | refusingBody
  | refused
  | answered
  | dropped
  | droppedWaiting
  deriving DecidableEq

namespace Phase

/-- The call that may be made in a phase, and the phase after it. -/
def step (conn : Int) : Phase → Call → Option Phase
  | .accepted, .setTimeout c seconds => if c = conn ∧ seconds = 30 then some .waiting else none
  | .waiting, .recv c => if c = conn then some .received else none
  -- an error: its header, and its body if the header was sent
  | .received, .send c sent =>
    if c = conn then some (if sent.isSome then .errorBody else .answered) else none
  | .errorBody, .send c _ => if c = conn then some .answered else none
  -- a file: its header, and then its blocks until one is not sent
  | .received, .fopen _ fd => if fd ≠ conn then some (.fileHeader fd) else none
  | .fileHeader fd, .send c sent =>
    if c = conn then some (if sent.isSome then .fileData fd else .refusing) else none
  | .fileData fd, .send c sent =>
    if c = conn then some (if sent.isSome then .fileData fd else .fileEnd fd) else none
  | .fileData fd, .fclose file => if file = fd then some .answered else none
  | .fileEnd fd, .fclose file => if file = fd then some .answered else none
  -- the header of a file was not sent: an error instead, and the file stays open
  | .refusing, .send c sent =>
    if c = conn then some (if sent.isSome then .refusingBody else .refused) else none
  | .refusingBody, .send c _ => if c = conn then some .refused else none
  | .refused, .close c => if c = conn then some .dropped else none
  | .received, .setTimeout c seconds => if c = conn ∧ seconds = 5 then some .waiting else none
  | .received, .close c => if c = conn then some .dropped else none
  | .answered, .setTimeout c seconds => if c = conn ∧ seconds = 5 then some .waiting else none
  | .answered, .close c => if c = conn then some .dropped else none
  | .dropped, .close c => if c = conn then some .dropped else none
  | .dropped, .setTimeout c seconds =>
    if c = conn ∧ seconds = 5 then some .droppedWaiting else none
  | .droppedWaiting, .recv c => if c = conn then some .dropped else none
  | _, _ => none

def waitingOn (conn : Int) (w : Worker) : Phase :=
  if conn ∈ w.fds then .waiting else .droppedWaiting

/-- The round is over but for its timeout or its close. -/
def Settled (conn : Int) (w : Worker) (phase : Phase) : Prop :=
  if conn ∈ w.fds then phase = .received ∨ phase = .answered else phase = .dropped

def isDropped : Phase → Bool
  | .dropped | .droppedWaiting => true
  | .accepted | .waiting | .received | .errorBody | .fileHeader _ | .fileData _ | .fileEnd _
  | .refusing | .refusingBody | .refused | .answered => false

end Phase

/-- The calls from `w` to `w'` lead from the one phase to the other. -/
def Follows (conn : Int) (w : Worker) (before : Phase) (w' : Worker) (after : Phase) : Prop :=
  Leads (Phase.step conn) w.log before w'.log after

/-- The calls from `w` to `w'` are at most one answer. -/
def Answers (conn : Int) (w w' : Worker) : Prop :=
  ∃ after, Follows conn w .received w' after ∧ after.Settled conn w'

section Phases
variable {conn : Int} {w w' w'' : Worker} {phase before between after : Phase}

theorem Phase.settled_of_open (hopen : conn ∈ w.fds) (h : phase = .received ∨ phase = .answered) :
    phase.Settled conn w := by
  rw [Settled, if_pos hopen]
  exact h

theorem Phase.settled_of_closed (hclosed : conn ∉ w.fds) : Phase.dropped.Settled conn w := by
  rw [Settled, if_neg hclosed]

theorem Phase.Settled.close (h : phase.Settled conn w) :
    phase.step conn (.close conn) = some .dropped := by
  unfold Settled at h
  split at h
  · rcases h with rfl | rfl
    · exact if_pos rfl
    · exact if_pos rfl
  · rw [h]
    exact if_pos rfl

theorem Follows.trans (h : Follows conn w before w' between)
    (h' : Follows conn w' between w'' after) : Follows conn w before w'' after := Leads.trans h h'

theorem Follows.call (c : Call) (h : before.step conn c = some after)
    (hlog : w'.log = w.log ++ [c]) : Follows conn w before w' after := by
  rw [Follows, hlog]
  exact Leads.event h

theorem Follows.setTimeout (h : phase.Settled conn w) :
    Follows conn w phase (w.record (.setTimeout conn 5))
      (.waitingOn conn (w.record (.setTimeout conn 5))) := by
  refine .call (.setTimeout conn 5) ?_ rfl
  change _ = some (if conn ∈ w.fds then Phase.waiting else .droppedWaiting)
  unfold Phase.Settled at h
  split at h
  · next hopen =>
    rw [if_pos hopen]
    rcases h with rfl | rfl
    · exact if_pos ⟨rfl, rfl⟩
    · exact if_pos ⟨rfl, rfl⟩
  · next hclosed =>
    rw [h, if_neg hclosed]
    exact if_pos ⟨rfl, rfl⟩

/-- Where a `send` leads depends on whether it fails. -/
theorem Follows.send (conn : Int) (before yes no : Phase) (bytes : Bytes) (w : Worker)
    (h : ∀ sent : Option Bytes, before.step conn (.send conn sent) =
      some (if sent.isSome then yes else no)) :
    Follows conn w before (w.send conn bytes).2 (if (w.send conn bytes).1 then yes else no) := by
  obtain ⟨sent, hresult, hlog⟩ : ∃ sent : Option Bytes, (w.send conn bytes).1 = sent.isSome ∧
      (w.send conn bytes).2.log = w.log ++ [.send conn sent] := by
    unfold Worker.send
    split
    · exact ⟨none, rfl, rfl⟩
    · cases w.sends with
      | nil => exact ⟨some bytes, rfl, rfl⟩
      | cons outcome rest =>
        cases outcome with
        | none => exact ⟨none, rfl, rfl⟩
        | some n => exact ⟨some (bytes.take n), rfl, rfl⟩
  rw [hresult]
  exact .call _ (h sent) hlog

/-- Once its answer is there the connection is closed. -/
theorem Answers.close (h : Answers conn w w') : Answers conn w (w'.close conn) := by
  obtain ⟨after, hfollows, hsettled⟩ := h
  exact ⟨.dropped, hfollows.trans (.call (.close conn) hsettled.close rfl),
    Phase.settled_of_closed (Finset.notMem_erase conn w'.fds)⟩

theorem Answers.nothing (hopen : conn ∈ w.fds) : Answers conn w w :=
  ⟨.received, Leads.refl _ _, Phase.settled_of_open hopen (.inl rfl)⟩

end Phases

section Sending
variable {conn : Int} {w w' : Worker}

/-- An error is its header, and its body if that was sent. -/
theorem Follows.errorResponse (statusCode : Int) (statusMessage : Bytes) (w : Worker)
    (before body after : Phase)
    (hheader : ∀ sent : Option Bytes, before.step conn (.send conn sent) =
      some (if sent.isSome then body else after))
    (hbody : ∀ sent : Option Bytes, body.step conn (.send conn sent) = some after) :
    Follows conn w before (sendErrorResponse conn statusCode statusMessage w) after := by
  have hfirst := Follows.send conn before body after (errorHeader statusCode statusMessage) w
    hheader
  unfold sendErrorResponse
  dsimp only
  split at hfirst
  · next hsent =>
    have hsecond := Follows.send conn body after after statusMessage
      (w.send conn (errorHeader statusCode statusMessage)).2 fun sent => by rw [hbody, ite_self]
    rw [ite_self] at hsecond
    rw [if_pos hsent]
    exact hfirst.trans hsecond
  · next hfailed =>
    rw [if_neg hfailed]
    exact hfirst

theorem Answers.errorResponse (hopen : conn ∈ w.fds) (statusCode : Int) (statusMessage : Bytes) :
    Answers conn w (sendErrorResponse conn statusCode statusMessage w) := by
  have hfds := (OnlySends.errorResponse conn statusCode statusMessage w).fds
  refine ⟨.answered, ?_, Phase.settled_of_open (hfds ▸ hopen) (.inr rfl)⟩
  exact .errorResponse statusCode statusMessage w .received .errorBody .answered
    (fun _ => if_pos rfl) fun _ => if_pos rfl

/-- The blocks of a file, up to the one that is not sent. -/
theorem Follows.fileData (conn fd : Int) (data : Bytes) (w : Worker) : ∃ after,
    Follows conn w (.fileData fd) (sendFileData conn data w) after ∧
      (after = .fileData fd ∨ after = .fileEnd fd) := by
  induction hn : data.length using Nat.strong_induction_on generalizing data w with
  | _ n ih =>
  rw [sendFileData]
  split
  · exact ⟨_, Leads.refl _ _, .inl rfl⟩
  · next hne =>
    have hpos := List.length_pos_iff.mpr hne
    have hblock := Follows.send conn (.fileData fd) (.fileData fd) (.fileEnd fd) (data.take 4096) w
      fun _ => if_pos rfl
    dsimp only
    split at hblock
    · next hsent =>
      rw [if_pos hsent]
      obtain ⟨after, hrest, hafter⟩ := ih _ (by rw [List.length_drop]; omega)
        (data.drop 4096) (w.send conn (data.take 4096)).2 rfl
      exact ⟨after, hblock.trans hrest, hafter⟩
    · next hfailed =>
      rw [if_neg hfailed]
      exact ⟨_, hblock, .inr rfl⟩

/-- The file is opened, sent and closed, or it stays open with the connection closed. -/
theorem Answers.staticFile {req : HttpRequest} {filepath : Bytes} {disk : Disk}
    (hopen : conn ∈ w.fds) (hok : sendStaticFile conn req filepath disk w = .ok w') :
    Answers conn w w' := by
  cases hfile : disk.fopen filepath with
  | none =>
    rw [sendStaticFile, hfile] at hok
    cases hok
    exact (Answers.errorResponse hopen 404 _).close
  | some file =>
    obtain ⟨dot, hdot⟩ := exists_suffix (sendStaticFile_suffix hok (by simp [hfile]))
    rw [sendStaticFile_found hfile hdot] at hok
    generalize fileResponse req filepath dot file = res at hok
    have hnew : Worker.freeFd w.fds ≠ conn := fun heq => Worker.freeFd_notMem w.fds (heq ▸ hopen)
    have hopened : Follows conn w .received (w.opened filepath res)
        (.fileHeader (Worker.freeFd w.fds)) := .call (.fopen filepath _) (if_pos hnew) rfl
    have hsend := OnlySends.send conn (w.opened filepath res) (fileHeader res)
    have hheader := Follows.send conn (.fileHeader (Worker.freeFd w.fds))
      (.fileData (Worker.freeFd w.fds)) .refusing (fileHeader res) (w.opened filepath res)
      fun _ => if_pos rfl
    dsimp only at hok
    split at hok
    · next hsent =>
      cases hok
      rw [if_pos hsent] at hheader
      have hall := hsend.trans (OnlySends.fileData conn file.data _)
      obtain ⟨after, hdata, hafter⟩ := Follows.fileData conn (Worker.freeFd w.fds)
        file.data ((w.opened filepath res).send conn (fileHeader res)).2
      have hblocks := (hopened.trans hheader).trans hdata
      generalize sendFileData conn file.data _ = v at hall hblocks ⊢
      have hmem : conn ∈ v.fds := hall.fds ▸ Finset.mem_insert_of_mem hopen
      have hstill : conn ∈ (v.fclose (Worker.freeFd w.fds)).fds :=
        Finset.mem_erase_of_ne_of_mem hnew.symm hmem
      have hclosed : after.step conn (.fclose (Worker.freeFd w.fds)) = some .answered := by
        rcases hafter with rfl | rfl
        · exact if_pos rfl
        · exact if_pos rfl
      exact ⟨.answered, hblocks.trans (.call _ hclosed rfl),
        Phase.settled_of_open hstill (.inr rfl)⟩
    · next hfailed =>
      cases hok
      rw [if_neg hfailed] at hheader
      have hrefused := (hopened.trans hheader).trans (.errorResponse 404 (ascii "Not Found") _
        .refusing .refusingBody .refused (fun _ => if_pos rfl) fun _ => if_pos rfl)
      exact ⟨.dropped, hrefused.trans (.call (.close conn) (if_pos rfl) rfl),
        Phase.settled_of_closed (Finset.notMem_erase conn _)⟩

theorem Answers.answer {req req' : HttpRequest} {homeDir : Bytes} {disk : Disk}
    (hopen : conn ∈ w.fds) (h : MinhServer.answer conn req homeDir disk w = .ok (req', w')) :
    Answers conn w w' := by
  rcases answer_cases h with ⟨-, hget⟩ | ⟨-, -, rfl⟩ | ⟨-, -, rfl⟩
  · obtain ⟨path, -, -, ⟨-, rfl⟩ | ⟨-, hfile⟩⟩ := handleGetRequest_cases hget
    · exact (Answers.errorResponse hopen 404 _).close
    · exact .staticFile hopen hfile
  · exact .nothing hopen
  · exact .errorResponse hopen 501 _

theorem Answers.httpRequest {req req' : HttpRequest} {request homeDir : Bytes} {disk : Disk}
    (hopen : conn ∈ w.fds)
    (h : handleHttpRequest conn req request homeDir disk w = .ok (req', w')) :
    Answers conn w w' := by
  obtain ⟨code, parsed, -, ⟨-, -, rfl⟩ | ⟨-, v, hanswer, rfl⟩⟩ := handleHttpRequest_cases h
  · exact (Answers.errorResponse hopen 400 _).close
  · have hv := Answers.answer hopen hanswer
    split
    · exact hv.close
    · exact hv

end Sending

section Sessions
variable {mode : Mode} {conn : Int} {homeDir : Bytes} {disk : Disk} {peer : Peer Byte}
  {w : Worker} {served : List HttpRequest} {s : Session}

/-- `recv` on the connection, which may have been closed. -/
theorem Follows.recv (conn : Int) (w : Worker) : ∃ after,
    Follows conn w (.waitingOn conn w) (w.record (.recv conn)) after ∧ after.Settled conn w ∧
      (conn ∈ w.fds → after = .received) := by
  unfold Phase.waitingOn
  split
  · next hopen =>
    exact ⟨.received, .call (.recv conn) (if_pos rfl) rfl,
      Phase.settled_of_open hopen (.inl rfl), fun _ => rfl⟩
  · next hclosed =>
    exact ⟨.dropped, .call (.recv conn) (if_pos rfl) rfl, Phase.settled_of_closed hclosed,
      fun hopen => absurd hopen hclosed⟩

theorem serveRequests_follows (h : serveRequests mode conn homeDir disk peer w served = .ok s) :
    Follows conn w (.waitingOn conn w) s.worker .dropped := by
  induction peer, w using loop_induction mode conn generalizing served with
  | last p w p' hround =>
    rw [serveRequests_last hround, Except.ok.injEq] at h
    rw [← h]
    obtain ⟨after, hrecv, hsettled, -⟩ := Follows.recv conn w
    exact hrecv.trans (.call (.close conn) hsettled.close rfl)
  | http p w r p' hr ht htype ih =>
    rw [serveRequests_http hr ht htype] at h
    obtain ⟨⟨req, v⟩, hhandle, h⟩ := bind_eq_ok.mp h
    have hopen : conn ∈ w.fds := open_of_receive hr
    obtain ⟨_, hrecv, -, hreceived⟩ := Follows.recv conn w
    obtain rfl := hreceived hopen
    have hopen' : conn ∈ (w.record (.recv conn)).fds := hopen
    obtain ⟨after, hanswer, hsettled⟩ := Answers.httpRequest hopen' hhandle
    dsimp only at h
    split at h
    · rw [Except.ok.injEq] at h
      rw [← h]
      exact (hrecv.trans hanswer).trans (.call (.close conn) hsettled.close rfl)
    · exact ((hrecv.trans hanswer).trans (.setTimeout hsettled)).trans (ih _ h)
  | other p w r p' hr ht htype ih =>
    rw [serveRequests_other hr ht htype] at h
    obtain ⟨after, hrecv, hsettled, -⟩ := Follows.recv conn w
    have hsettled' : after.Settled conn (w.record (.recv conn)) := hsettled
    exact (hrecv.trans (.setTimeout hsettled')).trans (ih _ h)

theorem step_dropped {phase after : Phase} {c : Call} (hdropped : phase.isDropped = true)
    (h : phase.step conn c = some after) :
    (c = .recv conn ∨ c = .setTimeout conn 5 ∨ c = .close conn) ∧ after.isDropped = true := by
  cases phase with
  | dropped =>
    cases c with
    | setTimeout fd seconds =>
      obtain ⟨⟨rfl, rfl⟩, hafter⟩ := Option.ite_none_right_eq_some.mp h
      cases hafter
      exact ⟨.inr (.inl rfl), rfl⟩
    | close fd =>
      obtain ⟨rfl, hafter⟩ := Option.ite_none_right_eq_some.mp h
      cases hafter
      exact ⟨.inr (.inr rfl), rfl⟩
    | recv fd | send fd sent | fopen name fd | fclose fd => cases h
  | droppedWaiting =>
    cases c with
    | recv fd =>
      obtain ⟨rfl, hafter⟩ := Option.ite_none_right_eq_some.mp h
      cases hafter
      exact ⟨.inl rfl, rfl⟩
    | setTimeout fd seconds | close fd | send fd sent | fopen name fd | fclose fd => cases h
  | _ => cases hdropped

theorem isDropped_of_close {phase after : Phase} (h : phase.step conn (.close conn) = some after) :
    after.isDropped = true := by
  cases phase with
  | received | refused | answered | dropped =>
    obtain ⟨-, hafter⟩ := Option.ite_none_right_eq_some.mp h
    cases hafter
    rfl
  | _ => cases h

/-- The calls of a whole session are a run of the automaton: the timeout of thirty seconds,
then round after round one call of `recvRequest`, at most one answer, and the timeout of five
seconds. An answer is an error of two sends at most, or one file that is opened, sent and closed;
if its header is not sent an error follows, and the connection is closed. Once the connection is
closed nothing is sent and no file is opened any more. -/
theorem session_order (h : handleOneClientRequest mode conn homeDir disk peer w = .ok s)
    (hopen : conn ∈ w.fds) :
    ∃ calls, s.worker.log = w.log ++ calls ∧
      replay (Phase.step conn) .accepted calls = some .dropped ∧
      ∀ before after, calls = before ++ .close conn :: after →
        ∀ c ∈ after, c = .recv conn ∨ c = .setTimeout conn 5 ∨ c = .close conn := by
  have hstart : Follows conn w .accepted (w.record (.setTimeout conn 30)) .waiting :=
    .call (.setTimeout conn 30) (if_pos ⟨rfl, rfl⟩) rfl
  have hloop := serveRequests_follows h
  have hopen' : conn ∈ (w.record (.setTimeout conn 30)).fds := hopen
  rw [Phase.waitingOn, if_pos hopen'] at hloop
  obtain ⟨calls, hlog, hreplay⟩ := hstart.trans hloop
  refine ⟨calls, hlog, hreplay, ?_⟩
  rintro before after rfl
  rw [replay_append] at hreplay
  obtain ⟨phase, -, hrest⟩ := Option.bind_eq_some_iff.mp hreplay
  rw [replay, List.foldlM_cons] at hrest
  obtain ⟨next, hclose, hafter⟩ := Option.bind_eq_some_iff.mp hrest
  exact forall_mem_of_replay (fun _ _ _ hdropped hstep => step_dropped hdropped hstep)
    (isDropped_of_close hclose) hafter

/-- A file is missing, and the loop finds the connection closed. -/
theorem session_order_missing :
    let peer : Peer Byte :=
      ⟨[.data (ascii "GET /a.txt HTTP/1.1\r\nConnection: keep-alive\r\n\r\n")], .close⟩
    let disk : Disk := ⟨fun _ => false, fun _ => none⟩
    ∃ s calls, handleOneClientRequest .blocking 5 [] disk peer { fds := {5} } = .ok s ∧
      s.worker.log = [] ++ calls ∧ calls.count (.close 5) = 2 ∧
      replay (Phase.step 5) .accepted calls = some .dropped := by
  intro peer disk
  have hrun : (handleOneClientRequest .blocking 5 [] disk peer { fds := {5} }).map
      (·.worker.log.count (.close 5)) = .ok 2 := by decide +kernel
  obtain ⟨s, hs, htwice⟩ := map_eq_ok.mp hrun
  obtain ⟨calls, hlog, hreplay, -⟩ := session_order hs (Finset.mem_singleton_self 5)
  rw [hlog] at htwice
  exact ⟨s, calls, hs, hlog, htwice, hreplay⟩

end Sessions
end MinhServer
