import Mathlib.Algebra.BigOperators.Group.List.Basic
import MinhServer.Allocation
import MinhServer.Isolation

namespace MinhServer.Allocating
open CString Wire

/-- The request loop. A round that parses nothing has no body to free, and the buffer of a text
that is empty is not freed. -/
def serveRequests (mode : Mode) (conn : Int) (homeDir : Bytes) (disk : Disk) (peer : Peer Byte)
    (w : Worker) (served : List HttpRequest) (h : Heap) : Except Crash (Session × Heap) :=
  let w := w.record (.recv conn)
  match _h : receive mode conn peer w h with
  | .error crash => .error crash
  | .ok (none, peer', h) => .ok (⟨peer', w.close conn, served⟩, h)
  | .ok (some (req, r), peer', h) =>
    if _ht : cstr r.memory = [] then .ok (⟨peer', w.close conn, served⟩, h)
    else
      let (info, h) := detectProtocol (cstr r.memory) (cstr r.memory).length h
      if info.type = .http then do
        let (request, body, w, h) ← handleHttpRequest conn .zeroed r.memory homeDir disk w h
        let h ← free req h
        let h ← freeHttpRequest body h
        if shouldCloseConnection request then
          .ok (⟨peer', w.close conn, served ++ [request]⟩, h)
        else
          serveRequests mode conn homeDir disk peer' (w.record (.setTimeout conn 5))
            (served ++ [request]) h
      else do
        let h ← free req h
        serveRequests mode conn homeDir disk peer' (w.record (.setTimeout conn 5)) served h
termination_by peer.size
decreasing_by all_goals exact receive_size_lt (receive_eq _h) _ht

def handleOneClientRequest (mode : Mode) (conn : Int) (homeDir : Bytes) (disk : Disk)
    (peer : Peer Byte) (w : Worker) (h : Heap) : Except Crash (Session × Heap) :=
  serveRequests mode conn homeDir disk peer (w.record (.setTimeout conn 30)) [] h

/-- What a round leaves in which a text is received. -/
def roundBlocks (homeDir : Bytes) (disk : Disk) (text : Bytes) : Nat :=
  detectedBlocks (MinhServer.detectProtocol (cstr text) (cstr text).length) +
    if IsHttp text then handledBlocks homeDir disk text else 0

section Rounds
variable {text : Bytes} (homeDir : Bytes) (disk : Disk)

theorem roundBlocks_http (h : IsHttp text) : roundBlocks homeDir disk text =
    detectedBlocks (MinhServer.detectProtocol (cstr text) (cstr text).length) +
      handledBlocks homeDir disk text := by
  rw [roundBlocks, if_pos h]

theorem roundBlocks_other (h : ¬ IsHttp text) : roundBlocks homeDir disk text =
    detectedBlocks (MinhServer.detectProtocol (cstr text) (cstr text).length) := by
  rw [roundBlocks, if_neg h, Nat.add_zero]

end Rounds

section Received
variable (mode : Mode) (conn : Int) (homeDir : Bytes) (disk : Disk)

/-- From round `x` on the loop receives exactly these texts, in this order, and the last call of
`recvRequest` leaves so many blocks. -/
inductive Receives : Peer Byte × Worker → List Bytes → Nat → Prop where
  | silent {p w p'} (recv : MinhServer.receive mode conn p w = (none, p'))
      (starves : conn ∈ w.fds ∧ Starves mode {} p) : Receives (p, w) [] 1
  | failed {p w p'} (recv : MinhServer.receive mode conn p w = (none, p'))
      (fed : ¬ (conn ∈ w.fds ∧ Starves mode {} p)) : Receives (p, w) [] 0
  | empty {p w r p'} (recv : MinhServer.receive mode conn p w = (some r, p'))
      (text : cstr r.memory = []) : Receives (p, w) [] 1
  | closing {x text w req w'} (handles : Handles mode conn x text w)
      (handle : MinhServer.handleHttpRequest conn .zeroed text homeDir disk w = .ok (req, w'))
      (close : shouldCloseConnection req = true) : Receives x [text] 0
  | next {p w r p' y texts n} (recv : MinhServer.receive mode conn p w = (some r, p'))
      (next : NextRound mode conn homeDir disk (p, w) y) (rest : Receives y texts n) :
      Receives (p, w) (r.memory :: texts) n

end Received

section Session
variable {mode : Mode} {conn : Int} {homeDir : Bytes} {disk : Disk} {p p' : Peer Byte}
  {w : Worker} {served : List HttpRequest} {h h' : Heap} {req : Nat} {r : RecvBuffer}

theorem serveRequests_none (hr : receive mode conn p w h = .ok (none, p', h')) :
    serveRequests mode conn homeDir disk p w served h =
      .ok (⟨p', (w.record (.recv conn)).close conn, served⟩, h') := by
  have hr' : receive mode conn p (w.record (.recv conn)) h = .ok (none, p', h') := hr
  rw [serveRequests]
  split <;> simp_all

theorem serveRequests_blank (hr : receive mode conn p w h = .ok (some (req, r), p', h'))
    (ht : cstr r.memory = []) :
    serveRequests mode conn homeDir disk p w served h =
      .ok (⟨p', (w.record (.recv conn)).close conn, served⟩, h') := by
  have hr' : receive mode conn p (w.record (.recv conn)) h = .ok (some (req, r), p', h') := hr
  rw [serveRequests]
  split <;> simp_all

theorem serveRequests_text (hr : receive mode conn p w h = .ok (some (req, r), p', h'))
    (ht : cstr r.memory ≠ []) :
    serveRequests mode conn homeDir disk p w served h =
      if (detectProtocol (cstr r.memory) (cstr r.memory).length h').1.type = .http then
        (handleHttpRequest conn .zeroed r.memory homeDir disk (w.record (.recv conn))
          (detectProtocol (cstr r.memory) (cstr r.memory).length h').2).bind fun handled =>
        (free req handled.2.2.2).bind fun h =>
        (freeHttpRequest handled.2.1 h).bind fun h =>
        if shouldCloseConnection handled.1 then
          .ok (⟨p', handled.2.2.1.close conn, served ++ [handled.1]⟩, h)
        else
          serveRequests mode conn homeDir disk p' (handled.2.2.1.record (.setTimeout conn 5))
            (served ++ [handled.1]) h
      else
        (free req (detectProtocol (cstr r.memory) (cstr r.memory).length h').2).bind fun h =>
        serveRequests mode conn homeDir disk p'
          ((w.record (.recv conn)).record (.setTimeout conn 5)) served h := by
  have hr' : receive mode conn p (w.record (.recv conn)) h = .ok (some (req, r), p', h') := hr
  rw [serveRequests]
  split
  · simp_all
  · simp_all
  · next hsome =>
    rw [hr'] at hsome
    cases hsome
    rw [dif_neg ht]
    rfl

theorem freeHttpRequest_holds {h₀ : Heap} {body : Option Nat} {n : Nat}
    (hs : h₀.Holds body.toFinset n h) :
    ∃ h', freeHttpRequest body h = .ok h' ∧ h₀.Holds ∅ n h' := by
  cases body with
  | none => exact ⟨h, rfl, hs⟩
  | some block => exact free_only hs

theorem last_holds (hlast : LastRound mode conn p w p') (h : Heap) :
    ∃ n h', serveRequests mode conn homeDir disk p w served h =
        .ok (⟨p', (w.record (.recv conn)).close conn, served⟩, h') ∧
      Receives mode conn homeDir disk (p, w) [] n ∧ h.Holds ∅ n h' := by
  obtain ⟨result, h', hr, hbuffer, hdelivered⟩ := @receive_delivers mode p conn w h
  rcases hlast with hnone | ⟨r, hsome, ht⟩
  · rw [hnone] at hr hbuffer
    cases hdelivered with
    | buffer holds => cases hbuffer
    | starved starved holds => exact ⟨1, h', serveRequests_none hr, .silent hnone starved, holds⟩
    | refused fed holds => exact ⟨0, h', serveRequests_none hr, .failed hnone fed, holds⟩
  · rw [hsome] at hr hbuffer
    cases hdelivered with
    | buffer holds =>
      cases hbuffer
      exact ⟨1, h', serveRequests_blank hr ht, .empty hsome ht, leave_only holds⟩
    | starved => cases hbuffer
    | refused => cases hbuffer

theorem receive_text (hr : MinhServer.receive mode conn p w = (some r, p')) (h : Heap) :
    ∃ req h', receive mode conn p w h = .ok (some (req, r), p', h') ∧ h.Holds {req} 0 h' := by
  obtain ⟨result, h', hrun, hbuffer, hdelivered⟩ := @receive_delivers mode p conn w h
  rw [hr] at hrun hbuffer
  cases hdelivered with
  | buffer holds =>
    cases hbuffer
    exact ⟨_, h', hrun, holds⟩
  | starved => cases hbuffer
  | refused => cases hbuffer

theorem serveRequests_mirrors (hbody : w.res.body = none) (h : Heap) :
    Mirrors Crash.fault
      (fun s result => result.1 = s ∧ s.worker.res.body = none ∧
        ∃ texts n, Receives mode conn homeDir disk (p, w) texts n ∧
          h.Holds ∅ ((texts.map (roundBlocks homeDir disk)).sum + n) result.2)
      (MinhServer.serveRequests mode conn homeDir disk p w served)
      (serveRequests mode conn homeDir disk p w served h) := by
  induction p, w using loop_induction mode conn generalizing served h with
  | last p w p' hlast =>
    obtain ⟨n, h', hrun, hreceives, hs⟩ := @last_holds mode conn homeDir disk p p' w served hlast h
    rw [serveRequests_last hlast, hrun]
    refine .ok ⟨rfl, hbody, [], n, hreceives, ?_⟩
    rwa [List.map_nil, List.sum_nil, Nat.zero_add]
  | http p w r p' hr ht htype ih =>
    obtain ⟨req, h₁, hrun, hs₁⟩ := receive_text hr h
    obtain ⟨hinfo, hs₂⟩ := detectProtocol_leaves (cstr r.memory) (cstr r.memory).length h₁
    have hround := roundBlocks_http homeDir disk htype
    have hres : (w.record (.recv conn)).res.body = none := hbody
    have hhandled := handleHttpRequest_mirrors conn r.memory homeDir disk hres
      (detectProtocol (cstr r.memory) (cstr r.memory).length h₁).2
    rw [serveRequests_http hr ht htype, serveRequests_text hrun ht, hinfo, if_pos htype]
    cases hhandle : MinhServer.handleHttpRequest conn .zeroed r.memory homeDir disk
        (w.record (.recv conn)) with
    | error fault =>
      rw [hhandle] at hhandled
      rw [hhandled.eq_error]
      exact .error fault
    | ok handled =>
      obtain ⟨request, v⟩ := handled
      rw [hhandle] at hhandled
      obtain ⟨⟨request, body, v, h₃⟩, hrun', rfl, rfl, hres', hs₃⟩ := hhandled.exists_ok
      obtain ⟨h₄, hfree, hs₄⟩ := free_older (hs₁.later hs₂) hs₃
      obtain ⟨h₅, hfreeBody, hs₅⟩ := freeHttpRequest_holds hs₄
      rw [hrun', ok_bind, bind_ok, hfree, bind_ok, hfreeBody, bind_ok]
      rw [Nat.zero_add, ← hround] at hs₅
      dsimp only
      split
      · next hclose =>
        refine .ok ⟨rfl, hres', [r.memory], 0, .closing (.intro hr htype) hhandle hclose, ?_⟩
        rwa [List.map_cons, List.map_nil, List.sum_singleton, Nat.add_zero]
      · next hkeep =>
        have hnext : NextRound mode conn homeDir disk (p, w) (p', v.record (.setTimeout conn 5)) :=
          .http hr htype hhandle (Bool.eq_false_iff.mpr hkeep)
        refine (ih (v.record (.setTimeout conn 5)) hres' h₅).mono ?_
        rintro s result ⟨rfl, hleft, texts, n, hreceives, hs⟩
        refine ⟨rfl, hleft, r.memory :: texts, n, .next hr hnext hreceives, ?_⟩
        rw [List.map_cons, List.sum_cons, Nat.add_assoc]
        exact hs₅.later hs
  | other p w r p' hr ht htype ih =>
    obtain ⟨req, h₁, hrun, hs₁⟩ := receive_text hr h
    obtain ⟨hinfo, hs₂⟩ := detectProtocol_leaves (cstr r.memory) (cstr r.memory).length h₁
    obtain ⟨h₃, hfree, hs₃⟩ := free_only (hs₁.later hs₂)
    rw [serveRequests_other hr ht htype, serveRequests_text hrun ht, hinfo, if_neg htype, hfree]
    refine (ih ((w.record (.recv conn)).record (.setTimeout conn 5)) hbody h₃).mono ?_
    rintro s result ⟨rfl, hleft, texts, n, hreceives, hs⟩
    refine ⟨rfl, hleft, r.memory :: texts, n, .next hr (.other hr ht htype) hreceives, ?_⟩
    have hall := hs₃.later hs
    rw [List.map_cons, List.sum_cons, roundBlocks_other homeDir disk htype, Nat.add_assoc]
    rwa [Nat.zero_add] at hall

end Session

section Unique
variable {mode : Mode} {conn : Int} {homeDir : Bytes} {disk : Disk} {p p' : Peer Byte}
  {w w₀ v₀ v : Worker} {r : RecvBuffer} {x : Peer Byte × Worker} {texts texts' : List Bytes}
  {n n' : Nat}

theorem Receives.of_none (h : Receives mode conn homeDir disk (p, w) texts n)
    (hr : MinhServer.receive mode conn p w = (none, p')) :
    texts = [] ∧ (n = 1 ∧ (conn ∈ w.fds ∧ Starves mode {} p) ∨
      n = 0 ∧ ¬ (conn ∈ w.fds ∧ Starves mode {} p)) := by
  cases h with
  | silent recv starves => exact ⟨rfl, .inl ⟨rfl, starves⟩⟩
  | failed recv fed => exact ⟨rfl, .inr ⟨rfl, fed⟩⟩
  | empty recv =>
    rw [hr] at recv
    cases recv
  | closing handles =>
    cases handles with
    | intro recv =>
      rw [hr] at recv
      cases recv
  | next recv =>
    rw [hr] at recv
    cases recv

theorem Receives.of_blank (h : Receives mode conn homeDir disk (p, w) texts n)
    (hr : MinhServer.receive mode conn p w = (some r, p')) (ht : cstr r.memory = []) :
    texts = [] ∧ n = 1 := by
  have hlast : LastRound mode conn p w p' := .inr ⟨r, hr, ht⟩
  cases h with
  | silent recv =>
    rw [hr] at recv
    cases recv
  | failed recv =>
    rw [hr] at recv
    cases recv
  | empty => exact ⟨rfl, rfl⟩
  | closing handles =>
    cases handles with
    | intro recv type => exact absurd (hlast.blank recv) type.ne_nil
  | next recv next => exact absurd hlast (next.not_last p')

theorem Receives.of_text (h : Receives mode conn homeDir disk (p, w) texts n)
    (hr : MinhServer.receive mode conn p w = (some r, p')) (ht : cstr r.memory ≠ []) :
    (texts = [r.memory] ∧ n = 0 ∧ ∀ y, ¬ NextRound mode conn homeDir disk (p, w) y) ∨
      ∃ y rest, NextRound mode conn homeDir disk (p, w) y ∧ texts = r.memory :: rest ∧
        Receives mode conn homeDir disk y rest n := by
  cases h with
  | silent recv =>
    rw [hr] at recv
    cases recv
  | failed recv =>
    rw [hr] at recv
    cases recv
  | empty recv text =>
    rw [hr] at recv
    cases recv
    exact absurd text ht
  | closing handles handle close =>
    obtain ⟨rfl, rfl⟩ := handles.text_eq hr
    refine .inl ⟨rfl, rfl, fun y hnext => ?_⟩
    obtain ⟨req, v, hhandle, hkeep, -⟩ := hnext.of_http hr handles.isHttp
    rw [handle] at hhandle
    cases hhandle
    rw [close] at hkeep
    cases hkeep
  | next recv next rest =>
    rw [hr] at recv
    cases recv
    exact .inr ⟨_, _, next, rfl, rest⟩

/-- What is received is told by the peer and the connection. -/
theorem Receives.unique (h : Receives mode conn homeDir disk x texts n)
    (h' : Receives mode conn homeDir disk x texts' n') : texts' = texts ∧ n' = n := by
  induction h generalizing texts' n' with
  | silent recv starves =>
    obtain ⟨htexts, ⟨hn, -⟩ | ⟨-, hfed⟩⟩ := h'.of_none recv
    · exact ⟨htexts, hn⟩
    · exact absurd starves hfed
  | failed recv fed =>
    obtain ⟨htexts, ⟨-, hstarves⟩ | ⟨hn, -⟩⟩ := h'.of_none recv
    · exact absurd hstarves fed
    · exact ⟨htexts, hn⟩
  | empty recv text => exact h'.of_blank recv text
  | closing handles handle close =>
    cases handles with
    | intro recv type =>
      obtain ⟨htexts, hn, -⟩ | ⟨y, rest, hnext, -⟩ := h'.of_text recv type.ne_nil
      · exact ⟨htexts, hn⟩
      · obtain ⟨req, v, hhandle, hkeep, -⟩ := hnext.of_http recv type
        rw [handle] at hhandle
        cases hhandle
        rw [close] at hkeep
        cases hkeep
  | next recv next rest ih =>
    have ht := fun ht => next.not_last _ (.inr ⟨_, recv, ht⟩)
    obtain ⟨-, -, hnone⟩ | ⟨y, rest', hnext, rfl, hrest⟩ := h'.of_text recv ht
    · exact absurd next (hnone _)
    · obtain rfl := next.unique hnext
      obtain ⟨rfl, rfl⟩ := ih hrest
      exact ⟨rfl, rfl⟩

theorem handled_alike (halike : Alike conn w₀ v₀ w v)
    (hr : MinhServer.receive mode conn p w = (some r, p')) {req : HttpRequest} {w' : Worker}
    (h : MinhServer.handleHttpRequest conn .zeroed r.memory homeDir disk (w.record (.recv conn)) =
      .ok (req, w')) :
    ∃ v', MinhServer.handleHttpRequest conn .zeroed r.memory homeDir disk
        (v.record (.recv conn)) = .ok (req, v') ∧ Alike conn w₀ v₀ w' v' := by
  have hrecv : Alike conn w₀ v₀ (w.record (.recv conn)) (v.record (.recv conn)) :=
    halike.record rfl
  have hsame : SameAnswer conn w₀ v₀
      (MinhServer.handleHttpRequest conn .zeroed r.memory homeDir disk (w.record (.recv conn)))
      (MinhServer.handleHttpRequest conn .zeroed r.memory homeDir disk (v.record (.recv conn))) :=
    hrecv.httpRequest (open_of_receive hr) r.memory
  rw [h] at hsame
  revert hsame
  generalize MinhServer.handleHttpRequest conn .zeroed r.memory homeDir disk
    (v.record (.recv conn)) = y
  intro hsame
  cases hsame with
  | ok alike => exact ⟨_, rfl, alike⟩

/-- Nor does it depend on what else the process has open. -/
theorem Receives.alike (h : Receives mode conn homeDir disk x texts n) :
    ∀ v, Alike conn w₀ v₀ x.2 v → Receives mode conn homeDir disk (x.1, v) texts n := by
  induction h with
  | silent recv starves =>
    intro v halike
    exact .silent ((halike.receive_eq mode _).trans recv) ⟨halike.fds.mp starves.1, starves.2⟩
  | failed recv fed =>
    intro v halike
    exact .failed ((halike.receive_eq mode _).trans recv)
      fun hboth => fed ⟨halike.fds.mpr hboth.1, hboth.2⟩
  | empty recv text =>
    intro v halike
    exact .empty ((halike.receive_eq mode _).trans recv) text
  | closing handles handle close =>
    intro v halike
    cases handles with
    | intro recv type =>
      obtain ⟨v', hhandle, -⟩ := handled_alike halike recv handle
      exact .closing (.intro ((halike.receive_eq mode _).trans recv) type) hhandle close
  | next recv next rest ih =>
    intro v halike
    have recv' := (halike.receive_eq mode _).trans recv
    cases next with
    | http recv₁ type handle keep =>
      rw [recv] at recv₁
      cases recv₁
      obtain ⟨v', hhandle, halike'⟩ := handled_alike halike recv handle
      exact .next recv' (.http recv' type hhandle keep) (ih _ (halike'.record rfl))
    | other recv₁ text type =>
      rw [recv] at recv₁
      cases recv₁
      exact .next recv' (.other recv' text type) (ih _ ((halike.record rfl).record rfl))

end Unique

/-- What the session of a process leaves that has this connection alone. -/
def aloneBlocks (mode : Mode) (homeDir : Bytes) (conn : Int) (visit : Visit) : Nat :=
  match handleOneClientRequest mode conn homeDir visit.disk visit.peer
      { fds := {conn}, sends := visit.sends } .empty with
  | .ok (_, h) => h.live.card
  | .error _ => 0

section Alone
variable {mode : Mode} {homeDir : Bytes} {conn : Int} {visit : Visit} {w : Worker}

/-- A session leaves what it would in a process of its own. -/
theorem session_alone (hopen : conn ∈ w.fds) (hsends : w.sends = visit.sends)
    (hbody : w.res.body = none) (h : Heap) :
    Mirrors Crash.fault
      (fun s result => result.1 = s ∧ s.worker.res.body = none ∧
        h.Holds ∅ (aloneBlocks mode homeDir conn visit) result.2)
      (MinhServer.handleOneClientRequest mode conn homeDir visit.disk visit.peer w)
      (handleOneClientRequest mode conn homeDir visit.disk visit.peer w h) := by
  let alone : Worker := { fds := {conn}, sends := visit.sends }
  have hstart : Alike conn w alone (w.record (.setTimeout conn 30))
      (alone.record (.setTimeout conn 30)) :=
    (Alike.start hsends hopen (Finset.mem_singleton_self conn)).record rfl
  have hsame : SameSession conn w alone
      (MinhServer.handleOneClientRequest mode conn homeDir visit.disk visit.peer w)
      (MinhServer.handleOneClientRequest mode conn homeDir visit.disk visit.peer alone) :=
    hstart.serveRequests []
  have hmirrors := @serveRequests_mirrors mode conn homeDir visit.disk visit.peer
    (w.record (.setTimeout conn 30)) [] hbody h
  have halone := @serveRequests_mirrors mode conn homeDir visit.disk visit.peer
    (alone.record (.setTimeout conn 30)) [] rfl .empty
  refine hmirrors.with_eq.mono ?_
  rintro s result ⟨hs, hresult, hleft, texts, n, hreceives, hheld⟩
  refine ⟨hresult, hleft, ?_⟩
  have hreturned : MinhServer.handleOneClientRequest mode conn homeDir visit.disk visit.peer w =
      .ok s := hs
  rw [hreturned] at hsame
  have hreturns : ∃ s', MinhServer.handleOneClientRequest mode conn homeDir visit.disk visit.peer
      alone = .ok s' := by
    revert hsame
    generalize MinhServer.handleOneClientRequest mode conn homeDir visit.disk visit.peer alone = y
    intro hsame
    cases hsame with
    | ok => exact ⟨_, rfl⟩
  obtain ⟨s', hs'⟩ := hreturns
  rw [MinhServer.handleOneClientRequest] at hs'
  rw [hs'] at halone
  obtain ⟨⟨_, h₁⟩, hrun, rfl, -, texts', n', hreceives', hheld'⟩ := halone.exists_ok
  obtain ⟨rfl, rfl⟩ := (hreceives.alike _ hstart).unique hreceives'
  have hcount : aloneBlocks mode homeDir conn visit =
      (texts'.map (roundBlocks homeDir visit.disk)).sum + n' := by
    have hcard : h₁.live.card = 0 + ((texts'.map (roundBlocks homeDir visit.disk)).sum + n') :=
      hheld'.card
    rw [aloneBlocks, handleOneClientRequest, hrun]
    exact hcard.trans (Nat.zero_add _)
  rw [hcount]
  exact hheld

end Alone

/-- A session ends on a heap as it does without one, and what was allocated before stays so. Besides
that exactly so many blocks are left as the texts that were received call for: the copies that the
detector makes, the copy of a request that was not parsed to its end, a file name or a file's type,
and the last buffer when nothing came. -/
theorem session_heap (mode : Mode) (conn : Int) (homeDir : Bytes) (disk : Disk)
    (peer : Peer Byte) (w : Worker) (h : Heap) (hbody : w.res.body = none) :
    (∀ fault, MinhServer.handleOneClientRequest mode conn homeDir disk peer w = .error fault →
      handleOneClientRequest mode conn homeDir disk peer w h = .error (.fault fault)) ∧
    ∀ s, MinhServer.handleOneClientRequest mode conn homeDir disk peer w = .ok s →
      ∃ h' texts n, handleOneClientRequest mode conn homeDir disk peer w h = .ok (s, h') ∧
        Receives mode conn homeDir disk (peer, w.record (.setTimeout conn 30)) texts n ∧
        h.live ⊆ h'.live ∧
        h'.live.card = h.live.card + ((texts.map (roundBlocks homeDir disk)).sum + n) := by
  have hmirrors := @serveRequests_mirrors mode conn homeDir disk peer
    (w.record (.setTimeout conn 30)) [] hbody h
  constructor
  · intro fault hfault
    rw [MinhServer.handleOneClientRequest] at hfault
    rw [hfault] at hmirrors
    exact hmirrors.eq_error
  · intro s hs
    rw [MinhServer.handleOneClientRequest] at hs
    rw [hs] at hmirrors
    obtain ⟨⟨s', h'⟩, hrun, rfl, -, texts, n, hreceives, hleft⟩ := hmirrors.exists_ok
    exact ⟨h', texts, n, hrun, hreceives, hleft.kept, hleft.card⟩

/-- A request for a missing file leaves four blocks. -/
theorem session_heap_missing :
    let disk : Disk := ⟨fun _ => false, fun _ => none⟩
    let peer : Peer Byte := ⟨[.data (ascii "GET /a HTTP/1.1\r\n\r\n")], .close⟩
    ∃ h' texts n, (handleOneClientRequest .blocking 5 [] disk peer { fds := {5} } .empty).map
        Prod.snd = .ok h' ∧
      Receives .blocking 5 [] disk (peer, { fds := {5}, log := [.setTimeout 5 30] }) texts n ∧
      (texts.map (roundBlocks [] disk)).sum + n = 4 := by
  intro disk peer
  have hok : (MinhServer.handleOneClientRequest .blocking 5 [] disk peer { fds := {5} }).map
      (·.served.length) = .ok 1 := by
    decide +kernel
  have hfour : (handleOneClientRequest .blocking 5 [] disk peer { fds := {5} } .empty).map
      (·.2.live.card) = .ok 4 := by
    decide +kernel
  obtain ⟨s, hs, -⟩ := map_eq_ok.mp hok
  obtain ⟨h', texts, n, hrun, hreceives, -, hcard⟩ :=
    (session_heap .blocking 5 [] disk peer { fds := {5} } .empty rfl).2 s hs
  rw [hrun] at hfour ⊢
  have hlive : h'.live.card = 4 := Except.ok.inj hfour
  refine ⟨h', texts, n, rfl, hreceives, ?_⟩
  have hempty : Heap.empty.live.card = 0 := rfl
  omega

end MinhServer.Allocating
