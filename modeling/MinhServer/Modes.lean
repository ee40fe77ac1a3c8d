import MinhServer.Rounds

namespace MinhServer
open CString Wire

/-- `recv` meets a pause somewhere in a call of `recvRequest`. -/
inductive MeetsPause : RecvState → Peer Byte → Prop where
  | now {s p} (room : s.grow.remaining ≠ 0) (pause : p.AtPause) : MeetsPause s p
  | later {s p bytes p' s'} (recv : p.recv .nonblocking s.grow.remaining = (.data bytes, p'))
      (more : s.grow.onData bytes = .more s') (rest : MeetsPause s' p') : MeetsPause s p

theorem recvLoop_of_meetsPause {s : RecvState} {p : Peer Byte} (h : MeetsPause s p) :
    ∃ p', recvLoop .nonblocking s p = (none, p') := by
  induction h with
  | @now s p room pause =>
    obtain ⟨p', hp⟩ := Peer.recv_of_atPause room pause
    exact ⟨p', by rw [recvLoop_eq, hp]⟩
  | @later s p bytes p' s' recv more _ ih =>
    obtain ⟨q, hq⟩ := ih
    exact ⟨q, by rw [recvLoop_eq, recv]; simp only [more, hq]⟩

theorem recvLoop_of_not_meetsPause {s : RecvState} {p : Peer Byte} (h : ¬ MeetsPause s p) :
    recvLoop .nonblocking s p = recvLoop .blocking s p := by
  induction hsize : p.size using Nat.strong_induction_on generalizing s p with
  | _ size ih =>
  have hrecv : p.recv .nonblocking s.grow.remaining = p.recv .blocking s.grow.remaining :=
    Peer.recv_of_not_atPause fun hroom hpause => h (.now hroom hpause)
  rw [recvLoop_eq, recvLoop_eq, ← hrecv]
  cases hr : p.recv .nonblocking s.grow.remaining with
  | mk res q =>
    cases res with
    | data bytes =>
      have hlt := Peer.recv_size_lt hr
      cases ho : s.grow.onData bytes with
      | complete s' => simp only [ho]
      | tooLarge => simp only [ho]
      | more s' =>
        simp only [ho]
        exact ih q.size (hsize ▸ hlt) (fun hrest => h (.later hr ho hrest)) rfl
    | eof | again | error => rfl

/-- The text that the next `n` bytes of the stream give the request loop. -/
def textAt (p : Peer Byte) (n : Nat) : Bytes := cstr (p.bytes.take n)

/-- An HTTP request is still to come, at once or after requests of other protocols. -/
inductive HoldsRequest : Peer Byte → Prop where
  | here {p n} (next : NextRequest p n)
      (type : (detectProtocol (textAt p n) (textAt p n).length).type = .http) : HoldsRequest p
  | later {p n} (next : NextRequest p n) (text : textAt p n ≠ [])
      (type : (detectProtocol (textAt p n) (textAt p n).length).type ≠ .http)
      (rest : HoldsRequest (p.drop n)) : HoldsRequest p

/-- Whenever a round of the loop is about to meet a pause on the open connection, no HTTP
request follows. -/
def PausesHarmless (conn : Int) (homeDir : Bytes) (disk : Disk) (start : Peer Byte × Worker) :
    Prop :=
  ∀ p w, Relation.ReflTransGen (NextRound .nonblocking conn homeDir disk) start (p, w) →
    conn ∈ w.fds → MeetsPause {} p → ¬ HoldsRequest p

def Call.isVisible : Call → Bool
  | .setTimeout _ _ => false
  | .recv _ => false
  | .send _ _ | .fopen _ _ | .fclose _ | .close _ => true

/-- The requests served and the calls with an effect, in order. -/
def Session.observe (s : Session) : List HttpRequest × List Call :=
  (s.served, s.worker.log.filter Call.isVisible)

/-- Both modes serve the same requests with the same effects. -/
def ModesAgree (conn : Int) (homeDir : Bytes) (disk : Disk) (peer : Peer Byte) (w : Worker) :
    Prop :=
  (serveSelect conn homeDir disk peer w).map Session.observe =
    (serveBlocking conn homeDir disk peer w).map Session.observe

section Agreement
variable {conn : Int} {homeDir : Bytes} {disk : Disk}

theorem served_isPrefix {mode : Mode} {p : Peer Byte} {w : Worker} {served : List HttpRequest}
    {s : Session} (h : serveRequests mode conn homeDir disk p w served = .ok s) :
    served <+: s.served := by
  obtain ⟨new, hserved, -⟩ := comesTo_of_served h
  rw [hserved]
  exact List.prefix_append served new

theorem receive_of_open {mode : Mode} {p : Peer Byte} {w : Worker} (h : conn ∈ w.fds) :
    receive mode conn p w = recvRequest mode p := if_pos h

theorem not_holdsRequest_of_nil {p : Peer Byte} (h : p.bytes = []) : ¬ HoldsRequest p := by
  have htext : ∀ n, textAt p n = [] := by
    intro n
    rw [textAt, h, List.take_nil]
    rfl
  intro hreq
  cases hreq with
  | here next type =>
    rw [htext] at type
    cases type
  | later next text type rest => exact text (htext _)

theorem blocking_of_noRequest {p : Peer Byte} {w : Worker} {served : List HttpRequest}
    (h : ¬ HoldsRequest p) (hopen : conn ∈ w.fds) :
    (serveRequests .blocking conn homeDir disk p w served).map Session.observe =
      .ok (served, w.log.filter Call.isVisible ++ [.close conn]) := by
  induction hsize : p.size using Nat.strong_induction_on generalizing p w with
  | _ size ih =>
  obtain ⟨r, n, p', hr, hnext, hbytes, hp'⟩ | ⟨⟨p', hr⟩, -⟩ := recvRequest_blocking p
  · have hr' : receive .blocking conn p w = (some r, p') := (receive_of_open hopen).trans hr
    have htext : textAt p n = cstr r.memory := by
      rw [cstr_memory, hbytes, textAt]
    by_cases ht : cstr r.memory = []
    · rw [serveRequests_blank hr' ht]
      simp [Except.map, Session.observe, Worker.close, Worker.record, Call.isVisible]
    have htype : (detectProtocol (cstr r.memory) (cstr r.memory).length).type ≠ .http :=
      fun hhttp => h (.here hnext (by rwa [htext]))
    have hrest : ¬ HoldsRequest p' := by
      rcases hp' with rfl | ⟨hnil, -⟩
      · exact fun hrest => h (.later hnext (by rwa [htext]) (by rwa [htext]) hrest)
      · exact not_holdsRequest_of_nil hnil
    have hopen' : conn ∈ ((w.record (.recv conn)).record (.setTimeout conn 5)).fds := hopen
    rw [serveRequests_other hr' ht htype,
      ih _ (hsize ▸ receive_size_lt hr' ht) hrest hopen' rfl]
    simp [Worker.record, Call.isVisible]
  · rw [serveRequests_none ((receive_of_open hopen).trans hr)]
    simp [Except.map, Session.observe, Worker.close, Worker.record, Call.isVisible]

/-- Otherwise it serves a further request. -/
theorem blocking_of_request {p : Peer Byte} {w : Worker} {served : List HttpRequest} {s : Session}
    (h : HoldsRequest p) (hopen : conn ∈ w.fds)
    (hs : serveRequests .blocking conn homeDir disk p w served = .ok s) :
    s.served ≠ served := by
  induction h generalizing w with
  | @here p n next type =>
    obtain ⟨r, p', hr, hbytes, -⟩ := next.recvRequest
    rw [textAt, ← hbytes, ← cstr_memory] at type
    have ht : cstr r.memory ≠ [] := by
      intro hnil
      rw [hnil] at type
      cases type
    rw [serveRequests_http ((receive_of_open hopen).trans hr) ht type] at hs
    obtain ⟨⟨req, w'⟩, -, hok⟩ := bind_eq_ok.mp hs
    have hmore : served ++ [req] <+: s.served := by
      dsimp only at hok
      split at hok
      · rw [Except.ok.injEq] at hok
        rw [← hok]
      · exact served_isPrefix hok
    intro he
    have := hmore.length_le
    rw [he, List.length_append, List.length_singleton] at this
    omega
  | @later p n next text type rest ih =>
    obtain ⟨r, p', hr, hbytes, hp'⟩ := next.recvRequest
    rw [textAt, ← hbytes, ← cstr_memory] at text type
    have hopen' : conn ∈ ((w.record (.recv conn)).record (.setTimeout conn 5)).fds := hopen
    rw [serveRequests_other ((receive_of_open hopen).trans hr) text type] at hs
    rcases hp' with rfl | ⟨-, hnil⟩
    · exact ih hopen' hs
    · exact absurd rest (not_holdsRequest_of_nil hnil)

theorem pausesHarmless_of_round {p : Peer Byte} {w : Worker} {next : Peer Byte × Worker}
    (hnext : NextRound .nonblocking conn homeDir disk (p, w) next) (hpause : ¬ MeetsPause {} p) :
    PausesHarmless conn homeDir disk (p, w) ↔ PausesHarmless conn homeDir disk next := by
  constructor
  · intro h q v hreach
    exact h q v (.head hnext hreach)
  · intro h q v hreach hopen hmeets
    rcases Relation.ReflTransGen.cases_head hreach with heq | ⟨next', hround, hrest⟩
    · cases heq
      exact absurd hmeets hpause
    · rw [← hnext.unique hround] at hrest
      exact h q v hrest hopen hmeets

theorem pausesHarmless_of_last {p : Peer Byte} {w : Worker}
    (hlast : ∀ next, ¬ NextRound .nonblocking conn homeDir disk (p, w) next)
    (hpause : conn ∈ w.fds → ¬ MeetsPause {} p) : PausesHarmless conn homeDir disk (p, w) := by
  intro q v hreach hopen hmeets
  rcases Relation.ReflTransGen.cases_head hreach with heq | ⟨next, hround, -⟩
  · cases heq
    exact absurd hmeets (hpause hopen)
  · exact absurd hround (hlast next)

/-- A select-mode server closes at a pause, whatever is still to come, so both modes agree
there exactly when no request is. -/
theorem agree_iff_of_meetsPause {p : Peer Byte} {w : Worker} (served : List HttpRequest)
    (hopen : conn ∈ w.fds) (hmeets : MeetsPause {} p) :
    (serveRequests .nonblocking conn homeDir disk p w served).map Session.observe =
        (serveRequests .blocking conn homeDir disk p w served).map Session.observe ↔
      PausesHarmless conn homeDir disk (p, w) := by
  obtain ⟨p', hloop⟩ := recvLoop_of_meetsPause hmeets
  have hrecv : receive .nonblocking conn p w = (none, p') := (receive_of_open hopen).trans hloop
  have hselect : (serveRequests .nonblocking conn homeDir disk p w served).map Session.observe =
      .ok (served, w.log.filter Call.isVisible ++ [.close conn]) := by
    rw [serveRequests_none hrecv]
    simp [Except.map, Session.observe, Worker.close, Worker.record, Call.isVisible]
  rw [hselect]
  constructor
  · intro heq
    have hnone : ¬ HoldsRequest p := by
      intro hrequest
      cases hb : serveRequests .blocking conn homeDir disk p w served with
      | error fault =>
        rw [hb] at heq
        cases heq
      | ok s =>
        rw [hb] at heq
        simp only [Except.map, Session.observe, Except.ok.injEq, Prod.mk.injEq] at heq
        exact blocking_of_request hrequest hopen hb heq.1.symm
    intro q v hreach _ _
    rcases Relation.ReflTransGen.cases_head hreach with heq | ⟨next, hround, -⟩
    · cases heq
      exact hnone
    · exact absurd (.inl hrecv) (hround.not_last p')
  · intro h
    exact (blocking_of_noRequest (h p w .refl hopen hmeets) hopen).symm

theorem receive_same {p : Peer Byte} {w : Worker} (h : conn ∈ w.fds → ¬ MeetsPause {} p) :
    receive .blocking conn p w = receive .nonblocking conn p w := by
  unfold receive
  split
  · next hopen => exact (recvLoop_of_not_meetsPause (h hopen)).symm
  · rfl

theorem not_meetsPause_of_receive {p p' : Peer Byte} {w : Worker} {r : RecvBuffer}
    (hr : receive .nonblocking conn p w = (some r, p')) : ¬ MeetsPause {} p := by
  intro hmeets
  obtain ⟨q, hnone⟩ := recvLoop_of_meetsPause hmeets
  rw [receive_of_open (open_of_receive hr), recvRequest, hnone] at hr
  cases hr

/-- From any point on, both modes agree exactly when the pauses to come are harmless. -/
theorem serveRequests_agree_iff (p : Peer Byte) (w : Worker) (served : List HttpRequest) :
    (serveRequests .nonblocking conn homeDir disk p w served).map Session.observe =
        (serveRequests .blocking conn homeDir disk p w served).map Session.observe ↔
      PausesHarmless conn homeDir disk (p, w) := by
  induction p, w using loop_induction .nonblocking conn generalizing served with
  | last p w p' hlast =>
    -- a pause inside the request is where the modes part; without one both see the same bytes
    by_cases hpause : conn ∈ w.fds ∧ MeetsPause {} p
    · exact agree_iff_of_meetsPause served hpause.1 hpause.2
    have hpause' : conn ∈ w.fds → ¬ MeetsPause {} p := fun hopen hmeets => hpause ⟨hopen, hmeets⟩
    have hlast' : LastRound .blocking conn p w p' := by
      rwa [LastRound, receive_same hpause']
    rw [serveRequests_last hlast, serveRequests_last hlast']
    exact iff_of_true rfl
      (pausesHarmless_of_last (fun next hround => hround.not_last p' hlast) hpause')
  | http p w r p' hr ht htype ih =>
    have hmeets := not_meetsPause_of_receive hr
    have hr' := (receive_same fun _ => hmeets).trans hr
    rw [serveRequests_http hr ht htype, serveRequests_http hr' ht htype]
    cases hh : handleHttpRequest conn .zeroed r.memory homeDir disk (w.record (.recv conn)) with
    | error fault =>
      refine iff_of_true rfl (pausesHarmless_of_last (fun next hround => ?_) fun _ => hmeets)
      obtain ⟨req, w', hok, -⟩ := hround.of_http hr htype
      rw [hh] at hok
      cases hok
    | ok result =>
      obtain ⟨req, w'⟩ := result
      by_cases hclose : shouldCloseConnection req = true
      · simp only [Bind.bind, Except.bind, hclose, ↓reduceIte, true_iff]
        refine pausesHarmless_of_last (fun next hround => ?_) fun _ => hmeets
        obtain ⟨req', v, hok, hkeep, -⟩ := hround.of_http hr htype
        rw [hh] at hok
        cases hok
        rw [hclose] at hkeep
        cases hkeep
      · have hround : NextRound .nonblocking conn homeDir disk (p, w) _ :=
          .http hr htype hh (by simpa using hclose)
        simp only [Bind.bind, Except.bind, hclose, Bool.false_eq_true, ↓reduceIte]
        rw [ih]
        exact (pausesHarmless_of_round hround hmeets).symm
  | other p w r p' hr ht htype ih =>
    have hmeets := not_meetsPause_of_receive hr
    have hr' := (receive_same fun _ => hmeets).trans hr
    have hround : NextRound .nonblocking conn homeDir disk (p, w) _ := .other hr ht htype
    rw [serveRequests_other hr ht htype, serveRequests_other hr' ht htype, ih]
    exact (pausesHarmless_of_round hround hmeets).symm

theorem serveRequests_readable (p : Peer Byte) (w : Worker) (served : List HttpRequest) :
    (serveRequests .blocking conn homeDir disk p.readable w served).map Session.observe =
      (serveRequests .blocking conn homeDir disk p w served).map Session.observe := by
  by_cases hopen : conn ∈ w.fds
  · have hrecv : recvRequest .blocking p.readable = recvRequest .blocking p := by
      unfold recvRequest
      rw [recvLoop_eq, recvLoop_eq, Peer.recv_readable (by decide)]
    have hsame : receive .blocking conn p.readable w = receive .blocking conn p w := by
      rw [receive_of_open hopen, receive_of_open hopen, hrecv]
    cases hr : receive .blocking conn p w with
    | mk buffer p' =>
      rw [hr] at hsame
      cases buffer with
      | none => rw [serveRequests_none hr, serveRequests_none hsame]
      | some r =>
        by_cases ht : cstr r.memory = []
        · rw [serveRequests_blank hr ht, serveRequests_blank hsame ht]
        · by_cases htype : (detectProtocol (cstr r.memory) (cstr r.memory).length).type = .http
          · rw [serveRequests_http hr ht htype, serveRequests_http hsame ht htype]
          · rw [serveRequests_other hr ht htype, serveRequests_other hsame ht htype]
  · have hclosed : ∀ q : Peer Byte, receive .blocking conn q w = (none, q) := fun q => if_neg hopen
    rw [serveRequests_none (hclosed p), serveRequests_none (hclosed p.readable)]
    rfl

end Agreement

/-- Select mode serves a connection as blocking mode does exactly when no pause met by `recv`
is followed by an HTTP request. -/
theorem modes_agree_iff (conn : Int) (homeDir : Bytes) (disk : Disk) (peer : Peer Byte)
    (w : Worker) :
    ModesAgree conn homeDir disk peer w ↔
      PausesHarmless conn homeDir disk (peer.readable, w.record (.setTimeout conn 30)) := by
  unfold ModesAgree serveSelect serveBlocking handleOneClientRequest
  rw [← serveRequests_readable peer, serveRequests_agree_iff]

/-- A HEAD request whose last line comes after a pause is served in blocking mode only. -/
theorem pause_inside_head_disagrees :
    ¬ ∀ conn homeDir disk peer w, ModesAgree conn homeDir disk peer w := by
  intro h
  let peer : Peer Byte :=
    ⟨[.data (ascii "HEAD / HTTP/1.1\r\n"), .pause, .data (ascii "\r\n")], .close⟩
  let disk : Disk := ⟨fun _ => false, fun _ => none⟩
  have hselect : (serveSelect 5 [] disk peer { fds := {5} }).map (·.served.length) = .ok 0 := by
    decide +kernel
  have hblocking : (serveBlocking 5 [] disk peer { fds := {5} }).map (·.served.length) =
      .ok 1 := by
    decide +kernel
  obtain ⟨s, hs, hnone⟩ := map_eq_ok.mp hselect
  obtain ⟨b, hb, hone⟩ := map_eq_ok.mp hblocking
  have hagree := h 5 [] disk peer { fds := {5} }
  unfold ModesAgree at hagree
  rw [hs, hb] at hagree
  simp only [Except.map, Session.observe, Except.ok.injEq, Prod.mk.injEq] at hagree
  rw [hagree.1] at hnone
  omega

end MinhServer
