import MinhServer.Framing
import MinhServer.Http.Response
import MinhServer.Protocol

namespace MinhServer
open CString Wire

/-- What serving a connection leaves: the rest of the stream, the process, and the requests
handed to `handleHttpRequest`, as they were parsed. -/
structure Session where
  peer : Peer Byte
  worker : Worker
  served : List HttpRequest

/-- `recvRequest(conn)`; on a descriptor that is not open `recv` fails. -/
def receive (mode : Mode) (conn : Int) (peer : Peer Byte) (w : Worker) :
    Option RecvBuffer × Peer Byte :=
  if conn ∈ w.fds then recvRequest mode peer else (none, peer)

theorem receive_size_lt {mode : Mode} {conn : Int} {p p' : Peer Byte} {w : Worker}
    {r : RecvBuffer} (h : receive mode conn p w = (some r, p')) (hr : cstr r.memory ≠ []) :
    p'.size < p.size := by
  have hbytes : r.bytes ≠ [] := by
    intro hnil
    apply hr
    unfold RecvBuffer.memory
    rw [hnil]
    rfl
  unfold receive at h
  split at h
  · exact recvRequest_size_lt_of_bytes hbytes h
  · cases h

/-- The request loop; `served` are the requests handled before. -/
def serveRequests (mode : Mode) (conn : Int) (homeDir : Bytes) (disk : Disk)
    (peer : Peer Byte) (w : Worker) (served : List HttpRequest) : Except Fault Session :=
  let w := w.record (.recv conn)
  match _h : receive mode conn peer w with
  | (none, peer') => .ok ⟨peer', w.close conn, served⟩
  | (some r, peer') =>
    if _ht : cstr r.memory = [] then .ok ⟨peer', w.close conn, served⟩
    else if (detectProtocol (cstr r.memory) (cstr r.memory).length).type = .http then do
      let (req, w) ← handleHttpRequest conn .zeroed r.memory homeDir disk w
      if shouldCloseConnection req then .ok ⟨peer', w.close conn, served ++ [req]⟩
      else
        -- keep-alive: five seconds for the next request
        serveRequests mode conn homeDir disk peer' (w.record (.setTimeout conn 5))
          (served ++ [req])
    else serveRequests mode conn homeDir disk peer' (w.record (.setTimeout conn 5)) served
termination_by peer.size
decreasing_by all_goals exact receive_size_lt _h _ht

section Loop
variable {mode : Mode} {conn : Int} {homeDir : Bytes} {disk : Disk} {p p' : Peer Byte}
  {w : Worker} {served : List HttpRequest} {r : RecvBuffer}

theorem receive_record (c : Call) : receive mode conn p (w.record c) = receive mode conn p w := rfl

theorem serveRequests_none (h : receive mode conn p w = (none, p')) :
    serveRequests mode conn homeDir disk p w served =
      .ok ⟨p', (w.record (.recv conn)).close conn, served⟩ := by
  rw [serveRequests]
  split <;> simp_all [receive_record]

theorem serveRequests_blank (h : receive mode conn p w = (some r, p'))
    (ht : cstr r.memory = []) :
    serveRequests mode conn homeDir disk p w served =
      .ok ⟨p', (w.record (.recv conn)).close conn, served⟩ := by
  rw [serveRequests]
  split <;> simp_all [receive_record]

theorem serveRequests_http (h : receive mode conn p w = (some r, p')) (ht : cstr r.memory ≠ [])
    (htype : (detectProtocol (cstr r.memory) (cstr r.memory).length).type = .http) :
    serveRequests mode conn homeDir disk p w served =
      handleHttpRequest conn .zeroed r.memory homeDir disk (w.record (.recv conn)) >>= fun result =>
        if shouldCloseConnection result.1 then
          .ok ⟨p', result.2.close conn, served ++ [result.1]⟩
        else serveRequests mode conn homeDir disk p' (result.2.record (.setTimeout conn 5))
          (served ++ [result.1]) := by
  rw [serveRequests]
  split
  · simp_all [receive_record]
  · next r' q hr =>
    rw [receive_record, h] at hr
    cases hr
    rw [dif_neg ht, if_pos htype]

theorem serveRequests_other (h : receive mode conn p w = (some r, p')) (ht : cstr r.memory ≠ [])
    (htype : (detectProtocol (cstr r.memory) (cstr r.memory).length).type ≠ .http) :
    serveRequests mode conn homeDir disk p w served =
      serveRequests mode conn homeDir disk p'
        ((w.record (.recv conn)).record (.setTimeout conn 5)) served := by
  rw [serveRequests]
  split
  · simp_all [receive_record]
  · next r' q hr =>
    rw [receive_record, h] at hr
    cases hr
    rw [dif_neg ht, if_neg htype]

/-- Nothing is received, or an empty text. -/
def LastRound (mode : Mode) (conn : Int) (p : Peer Byte) (w : Worker) (p' : Peer Byte) : Prop :=
  receive mode conn p w = (none, p') ∨
    ∃ r, receive mode conn p w = (some r, p') ∧ cstr r.memory = []

theorem serveRequests_last (h : LastRound mode conn p w p') :
    serveRequests mode conn homeDir disk p w served =
      .ok ⟨p', (w.record (.recv conn)).close conn, served⟩ := by
  rcases h with h | ⟨r, h, ht⟩
  · exact serveRequests_none h
  · exact serveRequests_blank h ht

/-- Induction along the loop: each round but the last leaves less of the stream. -/
@[elab_as_elim]
theorem loop_induction (mode : Mode) (conn : Int) {motive : Peer Byte → Worker → Prop}
    (last : ∀ p w p', LastRound mode conn p w p' → motive p w)
    (http : ∀ p w r p', receive mode conn p w = (some r, p') → cstr r.memory ≠ [] →
      (detectProtocol (cstr r.memory) (cstr r.memory).length).type = .http →
      (∀ w', motive p' w') → motive p w)
    (other : ∀ p w r p', receive mode conn p w = (some r, p') → cstr r.memory ≠ [] →
      (detectProtocol (cstr r.memory) (cstr r.memory).length).type ≠ .http →
      (∀ w', motive p' w') → motive p w)
    (p : Peer Byte) (w : Worker) : motive p w := by
  induction hsize : p.size using Nat.strong_induction_on generalizing p w with
  | _ size ih =>
  cases hr : receive mode conn p w with
  | mk buffer p' =>
    cases buffer with
    | none => exact last p w p' (.inl hr)
    | some r =>
      by_cases ht : cstr r.memory = []
      · exact last p w p' (.inr ⟨r, hr, ht⟩)
      have hrest : ∀ w', motive p' w' := fun w' => ih _ (hsize ▸ receive_size_lt hr ht) p' w' rfl
      by_cases htype : (detectProtocol (cstr r.memory) (cstr r.memory).length).type = .http
      · exact http p w r p' hr ht htype hrest
      · exact other p w r p' hr ht htype hrest

/-- The loop leaves the connection closed and every other descriptor open. -/
theorem serveRequests_closesOnly {s : Session}
    (h : serveRequests mode conn homeDir disk p w served = .ok s) :
    conn ∉ s.worker.fds ∧ ClosesOnly conn w s.worker := by
  have hclose : ∀ v : Worker, conn ∉ (v.close conn).fds := fun v => Finset.notMem_erase _ _
  induction p, w using loop_induction mode conn generalizing served with
  | last p w p' hlast =>
    rw [serveRequests_last hlast, Except.ok.injEq] at h
    rw [← h]
    exact ⟨hclose _, (ClosesOnly.record _ w).trans (ClosesOnly.close conn _)⟩
  | http p w r p' hr ht htype ih =>
    rw [serveRequests_http hr ht htype] at h
    obtain ⟨⟨req, w'⟩, hhandle, h⟩ := bind_eq_ok.mp h
    have hw' : ClosesOnly conn w w' :=
      (ClosesOnly.record _ w).trans (ClosesOnly.httpRequest hhandle)
    dsimp only at h
    split at h
    · rw [Except.ok.injEq] at h
      rw [← h]
      exact ⟨hclose _, hw'.trans (ClosesOnly.close conn w')⟩
    · obtain ⟨hconn, hrest⟩ := ih _ h
      exact ⟨hconn, hw'.trans ((ClosesOnly.record _ w').trans hrest)⟩
  | other p w r p' hr ht htype ih =>
    rw [serveRequests_other hr ht htype] at h
    obtain ⟨hconn, hrest⟩ := ih _ h
    exact ⟨hconn, (ClosesOnly.record _ w).trans ((ClosesOnly.record _ _).trans hrest)⟩

end Loop

def handleOneClientRequest (mode : Mode) (conn : Int) (homeDir : Bytes) (disk : Disk)
    (peer : Peer Byte) (w : Worker) : Except Fault Session :=
  serveRequests mode conn homeDir disk peer (w.record (.setTimeout conn 30)) []

/-- In select mode the handler is called once the connection is readable. -/
def serveSelect (conn : Int) (homeDir : Bytes) (disk : Disk) (peer : Peer Byte) (w : Worker) :
    Except Fault Session :=
  handleOneClientRequest .nonblocking conn homeDir disk peer.readable w

def serveBlocking (conn : Int) (homeDir : Bytes) (disk : Disk) (peer : Peer Byte) (w : Worker) :
    Except Fault Session :=
  handleOneClientRequest .blocking conn homeDir disk peer w

end MinhServer
