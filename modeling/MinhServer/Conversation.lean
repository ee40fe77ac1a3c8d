import MinhServer.Bodyless
import MinhServer.Http.Printing
import MinhServer.ResponseStream
import MinhServer.Termination

namespace MinhServer
open CString Wire Stream

/-- One message after the other; what ends the stream comes behind the last one. -/
def conversation (messages : List (List Bytes)) (ending : Ending) : Peer Byte :=
  messages.foldr (fun segs rest => rest.behind segs) ⟨[], ending⟩

/-- A text that is received as one request, and to which there is an answer. -/
structure IsMessage (homeDir : Bytes) (disk : Disk) (text : Bytes) : Prop where
  noNul : 0 ∉ text
  framed : FrameEnd text text.length
  limit : text.length ≤ maxRequest + 1
  http : IsHttp text
  answerable : Answerable homeDir disk text

def hasFile (homeDir : Bytes) (disk : Disk) (req : HttpRequest) : Bool :=
  match requestPath req.path with
  | none => false
  | some path =>
    disk.readable (homeDir ++ path.bytes) && (disk.fopen (homeDir ++ path.bytes)).isSome &&
      (strrchr (homeDir ++ path.bytes) 46).isSome

/-- After the answer to a parsed request the connection waits for the next message. -/
def keepsOpenFor (homeDir : Bytes) (disk : Disk) (code : Int) (req : HttpRequest) : Bool :=
  decide (0 ≤ code) && !shouldCloseConnection req &&
    (decide (route req ≠ .get) || hasFile homeDir disk req)

def keepsOpen (homeDir : Bytes) (disk : Disk) (text : Bytes) : Bool :=
  match parseHttpRequest text .zeroed with
  | .ok (code, req) => keepsOpenFor homeDir disk code req
  | .error _ => false

/-- What is answered in a session: everything up to the first message that does not keep it
open. -/
def answered {α : Type*} (keeps : α → Bool) : List α → List α
  | [] => []
  | message :: messages => if keeps message then message :: answered keeps messages else [message]

theorem answered_map {α β : Type*} (keeps : β → Bool) (f : α → β) (l : List α) :
    answered keeps (l.map f) = (answered (fun a => keeps (f a)) l).map f := by
  induction l with
  | nil => rfl
  | cons a l ih =>
    rw [List.map_cons, answered, answered, ih]
    split
    · rw [List.map_cons]
    · rfl

theorem answered_congr {α : Type*} {keeps keeps' : α → Bool} {l : List α}
    (h : ∀ a ∈ l, keeps a = keeps' a) : answered keeps l = answered keeps' l := by
  induction l with
  | nil => rfl
  | cons a l ih =>
    obtain ⟨ha, hl⟩ := List.forall_mem_cons.mp h
    rw [answered, answered, ha, ih hl]

section Receive
variable {mode : Mode} {message : Bytes} {next : Peer Byte}

theorem behind_behind (segs segs' : List Bytes) (p : Peer Byte) :
    (p.behind segs).behind segs' = p.behind (segs' ++ segs) := by
  simp only [Peer.behind, List.map_append, List.append_assoc]

/-- The loop goes on to the arrival that ends the message, and takes nothing behind it. -/
theorem recvLoop_message (hframe : FrameEnd message message.length)
    (hlimit : message.length ≤ maxRequest + 1) {s : RecvState} (hs : RecvInv s)
    {segs : List Bytes} (hdata : s.data ++ segs.flatten = message) :
    ∃ r blank, recvLoop mode s (next.behind segs) = (some r, next.behind blank) ∧
      blank.flatten = [] ∧ r.bytes = message := by
  induction hsize : segs.flatten.length using Nat.strong_induction_on generalizing s segs with
  | _ size ih =>
  have hdone : requestComplete message = true := hframe.stream_done
  have hne : segs.flatten ≠ [] := by
    intro hnil
    have hopen := hs.incomplete
    rw [hnil, List.append_nil] at hdata
    rw [hdata, hdone] at hopen
    cases hopen
  obtain ⟨bytes, segs', hrecv, hflat⟩ := Peer.recv_behind mode hs.remaining_pos.ne' hne next
  obtain ⟨hbytes, -⟩ := Peer.recv_data hrecv
  have hgot : s.data ++ bytes ++ segs'.flatten = message := by
    rw [List.append_assoc, ← hflat, hdata]
  have htotal : (s.data ++ bytes).length + segs'.flatten.length = message.length := by
    have hlength := congrArg List.length hgot
    rwa [List.length_append] at hlength
  have htake : message.take (s.data ++ bytes).length = s.data ++ bytes := by
    rw [← hgot, List.take_left]
  obtain ⟨hend, r, hloop, hr⟩ | ⟨hopen, hlong, -⟩ | ⟨hopen, -, s', hs', hd, hloop⟩ :=
    hs.recvLoop_data hrecv
  · have hle := hframe.le_of_done (htake.symm ▸ hend)
    have hnil : segs'.flatten = [] := List.eq_nil_of_length_eq_zero (by omega)
    rw [hnil, List.append_nil] at hgot
    exact ⟨r, segs', hloop, hnil, hr.trans hgot⟩
  · have hlt := hframe.lt_of_notYet (htake.symm ▸ hopen)
    omega
  · have hlt : segs'.flatten.length < size := by
      have hpos := List.length_pos_iff.mpr hbytes
      rw [← hsize, hflat, List.length_append]
      omega
    rw [hloop]
    exact ih _ hlt hs' (hd.symm ▸ hgot) rfl

theorem lastRound_of_blank {conn : Int} {w : Worker} {blank : List Bytes}
    (hblank : blank.flatten = []) (ending : Ending) :
    ∃ p', LastRound mode conn ((⟨[], ending⟩ : Peer Byte).behind blank) w p' ∧ p'.bytes = [] := by
  generalize hpeer : (⟨[], ending⟩ : Peer Byte).behind blank = p
  rw [Peer.behind, List.append_nil] at hpeer
  have hbytes : p.bytes = [] := by rw [← hpeer, Peer.bytes_segments, hblank]
  have hpauseless : p.Pauseless := by
    rw [← hpeer]
    exact Peer.pauseless_segments blank ending
  by_cases hopen : conn ∈ w.fds
  · have hreceive : receive mode conn p w = recvLoop mode {} p := if_pos hopen
    rcases Peer.recv_cases mode recvInv_init.remaining_pos.ne' p with
      ⟨b, bs, p', -, -, hmore, -⟩ | ⟨-, hrecv⟩ | ⟨-, hpause, -⟩
    · rw [hbytes] at hmore
      cases hmore
    · refine ⟨⟨[], p.ending⟩, ?_, rfl⟩
      rw [recvLoop_eq, hrecv] at hreceive
      cases hend : p.ending with
      | close =>
        rw [hend] at hreceive
        exact .inr ⟨_, hreceive, rfl⟩
      | silent =>
        rw [hend] at hreceive
        exact .inl hreceive
      | reset =>
        rw [hend] at hreceive
        exact .inl hreceive
    · exact absurd hpauseless hpause
  · exact ⟨p, .inl (if_neg hopen), hbytes⟩

end Receive

section Answers
variable {conn : Int} {homeDir text text' : Bytes} {disk : Disk} {req : HttpRequest} {w : Worker}

theorem parseHttpRequest_congr (h : cstr text = cstr text') (req : HttpRequest) :
    parseHttpRequest text req = parseHttpRequest text' req := by
  unfold parseHttpRequest
  rw [h]

theorem replyToText_congr (h : cstr text = cstr text') :
    replyToText homeDir disk text = replyToText homeDir disk text' := by
  unfold replyToText
  rw [parseHttpRequest_congr h]

theorem keepsOpen_congr (h : cstr text = cstr text') :
    keepsOpen homeDir disk text = keepsOpen homeDir disk text' := by
  unfold keepsOpen
  rw [parseHttpRequest_congr h]

theorem Answerable.congr (h : cstr text = cstr text') (ha : Answerable homeDir disk text') :
    Answerable homeDir disk text where
  fits := by
    rw [h]
    exact ha.fits
  found := by
    intro code req hparse
    exact ha.found code req ((parseHttpRequest_congr h _).symm.trans hparse)

theorem hasFile_iff (hsends : w.sends.head? ≠ some none) :
    hasFile homeDir disk req = true ↔ FindsFile homeDir disk req w := by
  unfold hasFile FindsFile
  cases requestPath req.path with
  | none => simp
  | some path =>
    simp only [Option.some.injEq, exists_eq_left', Bool.and_eq_true]
    have hdot : (strrchr (homeDir ++ path.bytes) 46).isSome = true ↔
        46 ∈ homeDir ++ path.bytes := by
      rw [Option.isSome_iff_ne_none, ne_eq, strrchr_eq_none_iff, not_not]
    rw [hdot]
    constructor
    · rintro ⟨⟨hreadable, hopens⟩, hsuffix⟩
      exact ⟨hreadable, hopens, hsuffix, hsends⟩
    · rintro ⟨hreadable, hopens, hsuffix, -⟩
      exact ⟨⟨hreadable, hopens⟩, hsuffix⟩

theorem keepsOpen_iff (hsends : w.sends.head? ≠ some none) :
    keepsOpen homeDir disk text = true ↔ LeavesOpen homeDir disk text w := by
  unfold keepsOpen keepsOpenFor LeavesOpen
  cases parseHttpRequest text .zeroed with
  | error fault => simp
  | ok result =>
    obtain ⟨code, req⟩ := result
    have hfile : (route req = .get → FindsFile homeDir disk req w) ↔
        (decide (route req ≠ .get) || hasFile homeDir disk req) = true := by
      rw [Bool.or_eq_true, hasFile_iff hsends, decide_eq_true_iff, imp_iff_not_or]
    simp only [Except.ok.injEq, Prod.mk.injEq]
    constructor
    · intro h
      rw [Bool.and_eq_true, Bool.and_eq_true, decide_eq_true_iff, Bool.not_eq_true'] at h
      exact ⟨code, req, ⟨rfl, rfl⟩, h.1.1, h.1.2, hfile.mpr h.2⟩
    · rintro ⟨_, _, ⟨rfl, rfl⟩, hcode, hkeep, hget⟩
      rw [Bool.and_eq_true, Bool.and_eq_true, decide_eq_true_iff, Bool.not_eq_true']
      exact ⟨⟨hcode, hkeep⟩, hfile.mp hget⟩

theorem Worker.Takes.head {n : Nat} (h : w.Takes n) : w.sends.head? ≠ some none := by
  intro hnone
  obtain ⟨k, -, hk⟩ := h none (List.mem_of_mem_head? hnone)
  cases hk

theorem answer_message (h : IsMessage homeDir disk text') (htext : cstr text = text')
    (hopen : conn ∈ w.fds) (htakes : w.Takes 4096) (hdisk : disk.IsRegular) :
    ∃ req v, handleHttpRequest conn .zeroed text homeDir disk w = .ok (req, v) ∧
      Delivers 4096 w v (replyText (replyToText homeDir disk text')) ∧
      (keepsOpen homeDir disk text' = true → shouldCloseConnection req = false ∧ conn ∈ v.fds) ∧
      (keepsOpen homeDir disk text' = false → conn ∉ v.fds) := by
  have hcstr : cstr text = cstr text' := htext.trans (cstr_eq_self h.noNul).symm
  obtain ⟨⟨req, v⟩, hhandle⟩ := handleHttpRequest_isOk_iff.mpr (h.answerable.congr hcstr)
  have hdelivers := delivers_answer hopen htakes hdisk hhandle
  rw [replyToText_congr hcstr] at hdelivers
  rw [← keepsOpen_congr hcstr]
  refine ⟨req, v, hhandle, hdelivers, fun hkeeps => ?_, fun hends => ?_⟩
  · have hleaves := (keepsOpen_iff htakes.head).mp hkeeps
    obtain ⟨req', v', hhandle', hclose, hkept⟩ := handleHttpRequest_keeps hleaves hopen
    rw [hhandle] at hhandle'
    cases hhandle'
    exact ⟨hclose, hkept.fds hopen⟩
  · have hleaves : ¬ LeavesOpen homeDir disk text w := by
      rw [← keepsOpen_iff htakes.head, hends]
      exact Bool.false_ne_true
    exact (handleHttpRequest_closes hleaves hopen hhandle).fds

end Answers

section Session
variable {mode : Mode} {conn : Int} {homeDir : Bytes} {disk : Disk} {ending : Ending} {w : Worker}

/-- What is left of the conversation when the session has answered. -/
structure Conversed (homeDir : Bytes) (disk : Disk) (messages : List (List Bytes)) (w : Worker)
    (served : Nat) (s : Session) : Prop where
  count : s.served.length =
    served + (answered (keepsOpen homeDir disk) (messages.map List.flatten)).length
  delivers : Delivers 4096 w s.worker
    ((answered (keepsOpen homeDir disk) (messages.map List.flatten)).flatMap fun text =>
      replyText (replyToText homeDir disk text))
  unread : s.peer.bytes =
    ((messages.map List.flatten).drop
      (answered (keepsOpen homeDir disk) (messages.map List.flatten)).length).flatten

theorem bytes_conversation (messages : List (List Bytes)) (ending : Ending) :
    (conversation messages ending).bytes = (messages.map List.flatten).flatten := by
  induction messages with
  | nil => rfl
  | cons segs messages ih =>
    have hsegs : (conversation (segs :: messages) ending).bytes =
        segs.flatten ++ (conversation messages ending).bytes := by
      simp [conversation, Peer.behind, Peer.bytes, List.flatMap_map, List.flatMap_id']
    rw [hsegs, ih, List.map_cons, List.flatten_cons]

theorem bytes_behind_blank {blank : List Bytes} (hblank : blank.flatten = []) (p : Peer Byte) :
    (p.behind blank).bytes = p.bytes := by
  simp only [Peer.behind, Peer.bytes, List.flatMap_append, List.flatMap_map]
  rw [List.flatMap_id', hblank, List.nil_append]

theorem receive_conversation {segs : List Bytes} (h : IsMessage homeDir disk segs.flatten)
    (messages : List (List Bytes)) {blank : List Bytes} (hblank : blank.flatten = [])
    (hopen : conn ∈ w.fds) :
    ∃ r blank', receive mode conn ((conversation (segs :: messages) ending).behind blank) w =
        (some r, (conversation messages ending).behind blank') ∧ blank'.flatten = [] ∧
      cstr r.memory = segs.flatten := by
  have hpeer : (conversation (segs :: messages) ending).behind blank =
      (conversation messages ending).behind (blank ++ segs) := behind_behind segs blank _
  have hflat : ({} : RecvState).data ++ (blank ++ segs).flatten = segs.flatten := by
    rw [List.flatten_append, hblank]
    rfl
  obtain ⟨r, blank', hloop, hblank', hr⟩ :
      ∃ r blank', recvLoop mode {} ((conversation messages ending).behind (blank ++ segs)) =
        (some r, (conversation messages ending).behind blank') ∧ blank'.flatten = [] ∧
        r.bytes = segs.flatten := recvLoop_message h.framed h.limit recvInv_init hflat
  refine ⟨r, blank', ?_, hblank', ?_⟩
  · rw [receive, if_pos hopen, hpeer]
    exact hloop
  · rw [cstr_memory, hr, cstr_eq_self h.noNul]

theorem Conversed.cons_keeps {segs : List Bytes} {messages : List (List Bytes)} {v : Worker}
    {req : HttpRequest} {served : List HttpRequest} {s : Session}
    (hopens : keepsOpen homeDir disk segs.flatten = true)
    (hanswer : Delivers 4096 w v (replyText (replyToText homeDir disk segs.flatten)))
    (h : Conversed homeDir disk messages v (served ++ [req]).length s) :
    Conversed homeDir disk (segs :: messages) w served.length s := by
  have hmore : answered (keepsOpen homeDir disk) ((segs :: messages).map List.flatten) =
      segs.flatten :: answered (keepsOpen homeDir disk) (messages.map List.flatten) := by
    rw [List.map_cons, answered, if_pos hopens]
  refine ⟨?_, ?_, ?_⟩
  · have hcount := h.count
    rw [hmore]
    simp only [List.length_append, List.length_cons, List.length_nil] at hcount ⊢
    omega
  · rw [hmore, List.flatMap_cons]
    exact hanswer.trans h.delivers
  · rw [hmore, List.map_cons, List.length_cons, List.drop_succ_cons]
    exact h.unread

theorem Conversed.cons_ends {segs : List Bytes} {messages : List (List Bytes)} {v : Worker}
    {req : HttpRequest} {served : List HttpRequest} {p : Peer Byte}
    (hends : keepsOpen homeDir disk segs.flatten = false)
    (hanswer : Delivers 4096 w v (replyText (replyToText homeDir disk segs.flatten)))
    (hunread : p.bytes = (messages.map List.flatten).flatten) :
    Conversed homeDir disk (segs :: messages) w served.length ⟨p, v, served ++ [req]⟩ := by
  have hone : answered (keepsOpen homeDir disk) ((segs :: messages).map List.flatten) =
      [segs.flatten] := by
    rw [List.map_cons, answered, if_neg (by rw [hends]; exact Bool.false_ne_true)]
  refine ⟨?_, ?_, ?_⟩
  · rw [hone]
    exact List.length_append
  · rw [hone, List.flatMap_cons, List.flatMap_nil, List.append_nil]
    exact hanswer
  · rw [hone]
    exact hunread

theorem serve_conversation (hdisk : disk.IsRegular) {messages : List (List Bytes)}
    (hmessages : ∀ segs ∈ messages, IsMessage homeDir disk segs.flatten) {blank : List Bytes}
    (hblank : blank.flatten = []) (hopen : conn ∈ w.fds) (htakes : w.Takes 4096)
    (served : List HttpRequest) :
    ∃ s, serveRequests mode conn homeDir disk ((conversation messages ending).behind blank) w
        served = .ok s ∧
      Conversed homeDir disk messages w served.length s := by
  induction messages generalizing blank w served with
  | nil =>
    obtain ⟨p', hlast, hbytes⟩ : ∃ p', LastRound mode conn
        ((conversation [] ending).behind blank) w p' ∧ p'.bytes = [] :=
      lastRound_of_blank hblank ending
    exact ⟨_, serveRequests_last hlast, rfl, ((Delivers.refl htakes).recv conn).close conn, hbytes⟩
  | cons segs messages ih =>
    obtain ⟨hmessage, hrest⟩ := List.forall_mem_cons.mp hmessages
    obtain ⟨r, blank', hr, hblank', htext⟩ : ∃ r blank',
        receive mode conn ((conversation (segs :: messages) ending).behind blank) w =
          (some r, (conversation messages ending).behind blank') ∧ blank'.flatten = [] ∧
          cstr r.memory = segs.flatten :=
      receive_conversation hmessage messages hblank hopen
    have hhttp : IsHttp r.memory := by
      have h := hmessage.http
      rwa [IsHttp, cstr_eq_self hmessage.noNul, ← htext] at h
    have hrecv := (Delivers.refl htakes).recv conn
    have hopen' : conn ∈ (w.record (.recv conn)).fds := hopen
    obtain ⟨req, v, hhandle, hdelivers, hkeeps, hends⟩ :=
      answer_message hmessage htext hopen' hrecv.takes hdisk
    have hanswer := hrecv.trans hdelivers
    rw [List.nil_append] at hanswer
    rw [serveRequests_http hr hhttp.ne_nil hhttp, hhandle]
    simp only [Bind.bind, Except.bind]
    cases hopens : keepsOpen homeDir disk segs.flatten with
    | true =>
      obtain ⟨hclose, hstill⟩ := hkeeps hopens
      have hnext := hanswer.setTimeout conn 5
      have hstill' : conn ∈ (v.record (.setTimeout conn 5)).fds := hstill
      obtain ⟨s, hs, hconversed⟩ := ih hrest hblank' hstill' hnext.takes (served ++ [req])
      rw [if_neg (by rw [hclose]; exact Bool.false_ne_true)]
      exact ⟨s, hs, .cons_keeps hopens hnext hconversed⟩
    | false =>
      have hunread : ((conversation messages ending).behind blank').bytes =
          (messages.map List.flatten).flatten :=
        (bytes_behind_blank hblank' _).trans (bytes_conversation messages ending)
      split
      · exact ⟨_, rfl, .cons_ends hopens (hanswer.close conn) hunread⟩
      -- the answer closed the connection, and the loop finds it closed
      · have hclosed := ((hanswer.setTimeout conn 5).recv conn).close conn
        exact ⟨_, serveRequests_none (if_neg (hends hopens)), .cons_ends hopens hclosed hunread⟩

theorem handle_conversation {messages : List (List Bytes)}
    (hmessages : ∀ segs ∈ messages, IsMessage homeDir disk segs.flatten) (hopen : conn ∈ w.fds)
    (htakes : w.Takes 4096) (hdisk : disk.IsRegular) :
    ∃ s, handleOneClientRequest mode conn homeDir disk (conversation messages ending) w = .ok s ∧
      Conversed homeDir disk messages w 0 s ∧
      readAll readReply (responseBytes w s.worker) =
        some ((answered (keepsOpen homeDir disk) (messages.map List.flatten)).filterMap
          (replyToText homeDir disk)) := by
  have hstart := (Delivers.refl htakes).setTimeout conn 30
  have hopen' : conn ∈ (w.record (.setTimeout conn 30)).fds := hopen
  obtain ⟨s, hs, hconversed⟩ :=
    serve_conversation hdisk hmessages List.flatten_nil hopen' hstart.takes []
  have hdelivers := hstart.trans hconversed.delivers
  rw [List.nil_append] at hdelivers
  refine ⟨s, hs, ⟨hconversed.count, hdelivers, hconversed.unread⟩, ?_⟩
  rw [hdelivers.bytes, flatMap_replyText]
  exact readAll_flatten (spells_replies hdisk _)

/-- Messages that are sent one after the other, each in segments of its own, are answered one
after the other: what comes back are the replies to the messages up to the first one that ends
the session, and the messages behind it are not read. -/
theorem conversation_answered {messages : List (List Bytes)}
    (hmessages : ∀ segs ∈ messages, IsMessage homeDir disk segs.flatten) (hopen : conn ∈ w.fds)
    (htakes : w.Takes 4096) (hdisk : disk.IsRegular) :
    let answers := answered (keepsOpen homeDir disk) (messages.map List.flatten)
    ∃ s, handleOneClientRequest mode conn homeDir disk (conversation messages ending) w = .ok s ∧
      s.served.length = answers.length ∧
      readAll readReply (responseBytes w s.worker) =
        some (answers.filterMap (replyToText homeDir disk)) ∧
      s.peer.bytes = ((messages.map List.flatten).drop answers.length).flatten ∧
      conn ∉ s.worker.fds := by
  intro answers
  obtain ⟨s, hs, hconversed, hreplies⟩ := handle_conversation hmessages hopen htakes hdisk
  refine ⟨s, hs, hconversed.count.trans (Nat.zero_add _), hreplies, hconversed.unread, ?_⟩
  exact (serveRequests_closesOnly hs).1

/-- A chunked POST behind a request that is not implemented. -/
theorem conversation_answered_post :
    let disk : Disk := ⟨fun _ => false, fun _ => none⟩
    let texts := [ascii "OPTIONS / HTTP/1.1\r\nConnection: keep-alive\r\n\r\n",
      ascii "POST / HTTP/1.1\r\nTransfer-Encoding: chunked\r\n\r\n1\r\na\r\n0\r\n\r\n"]
    let messages := texts.map fun text => [text.take 40, text.drop 40]
    ∃ s, handleOneClientRequest .nonblocking 5 [] disk (conversation messages .silent)
        { fds := {5} } = .ok s ∧ s.served.length = 2 ∧ s.peer.bytes = [] ∧
      5 ∉ s.worker.fds := by
  intro disk texts messages
  have hframed : ∀ text ∈ texts, requestComplete (text.take text.length) = true ∧
      ∀ q < text.length, requestComplete (text.take q) = false := by decide +kernel
  have hplain : ∀ text ∈ texts, 0 ∉ text ∧ text.length ≤ maxRequest + 1 ∧ IsHttp text ∧
      (∀ line ∈ headLines (cstr text), 0 ∉ line) ∧
      (readLines (headLines (cstr text))).toBool = true := by decide +kernel
  have hroute : ∀ text ∈ texts,
      (parseHttpRequest text .zeroed).map (fun result => decide (route result.2 = .get)) =
        .ok false := by decide +kernel
  have hmessages : ∀ segs ∈ messages, IsMessage [] disk segs.flatten := by
    intro segs hsegs
    obtain ⟨text, htext, rfl⟩ := List.mem_map.mp hsegs
    have hflat : [text.take 40, text.drop 40].flatten = text := by
      simp only [List.flatten_cons, List.flatten_nil, List.append_nil, List.take_append_drop]
    obtain ⟨hdone, hfirst⟩ := hframed text htext
    obtain ⟨hnul, hlimit, hhttp, hlines, hread⟩ := hplain text htext
    rw [hflat]
    refine ⟨hnul, ⟨le_rfl, hdone, hfirst⟩, hlimit, hhttp, headFits_of_toBool hlines hread, ?_⟩
    intro code req hparse _ hget
    have hnot := hroute text htext
    rw [hparse] at hnot
    exact absurd hget (of_decide_eq_false (Except.ok.inj hnot))
  have hregular : disk.IsRegular := by
    rintro name file ⟨⟩
  have hrun : ∃ s, handleOneClientRequest .nonblocking 5 [] disk (conversation messages .silent)
      { fds := {5} } = .ok s ∧ s.served.length = _ ∧ _ ∧ s.peer.bytes = _ ∧ 5 ∉ s.worker.fds :=
    conversation_answered hmessages (Finset.mem_singleton_self 5) (by simp [Worker.Takes]) hregular
  obtain ⟨s, hs, hserved, -, hunread, hclosed⟩ := hrun
  exact ⟨s, hs, hserved.trans (by decide +kernel), hunread.trans (by decide +kernel), hclosed⟩

end Session

/-- A request that is classified as HTTP and ends with its head, and whose path the handler can
look up. -/
structure RequestText.IsSendable (homeDir : Bytes) (disk : Disk) (text : RequestText) : Prop where
  bodyless : isBodyless text.method.text.bytes = true
  http : IsHttp text.print
  found : route text.request = .get → ∃ path, requestPath text.path.text = some path ∧
    (disk.readable (homeDir ++ path.bytes) → (disk.fopen (homeDir ++ path.bytes)).isSome →
      46 ∈ homeDir ++ path.bytes)

section Printed
variable {mode : Mode} {conn : Int} {homeDir : Bytes} {disk : Disk} {ending : Ending} {w : Worker}
  (text : RequestText)

theorem RequestText.headLines_print : WholeHead text.print ∧
    headLines text.print = text.requestLine :: text.headers.map HeaderField.line := by
  have hls : ∀ l ∈ text.requestLine :: text.headers.map HeaderField.line, IsLine l :=
    fun l hl => .of_notMem (text.line_plain l hl).1 (text.line_plain l hl).2.1
  obtain ⟨e, he, hlen, hlines⟩ := headEnd_joinLines hls (List.cons_ne_nil _ _) []
  rw [List.append_nil, ← RequestText.print] at he hlines
  rw [← RequestText.print] at hlen
  refine ⟨⟨text.notMem_print, ?_⟩, ?_⟩
  · rw [findHttpHeaderEnd_eq, he, Option.map_some, hlen]
  · rw [headLines_of_end he, hlines]

theorem RequestText.parse_text : parseHttpRequest text.print .zeroed = .ok (0, text.request) := by
  obtain ⟨hhead, hlines⟩ := text.headLines_print
  have hcstr : cstr text.print = text.print ++ [] := by
    rw [cstr_eq_self text.notMem_print, List.append_nil]
  obtain ⟨req, hreq⟩ :=
    (readLines_isOk_iff fun l hl => (text.line_plain l hl).2.2).mpr text.headFits
  rw [parse_wholeHead hhead hcstr, hlines, hreq, text.request_eq (readLines_parsed hreq)]
  rfl

theorem RequestText.method_print : text.print.takeWhile (· ≠ 32) = text.method.text.bytes := by
  have hsplit : text.print = text.method.text.bytes ++ 32 ::
      (text.path.text.bytes ++ ascii " " ++ text.version.text.bytes ++ crlf ++
        joinLines (text.headers.map HeaderField.line) ++ crlf) := by
    have hspace : ascii " " = [32] := rfl
    simp only [RequestText.print, RequestText.requestLine, joinLines, List.flatMap_cons, hspace,
      List.append_assoc, List.cons_append, List.nil_append]
  rw [hsplit]
  apply takeWhile_append_stop
  · intro b hb
    have hsolid := text.method.solid b hb
    have hne : b ≠ 32 := by
      rintro rfl
      exact absurd hsolid (by decide)
    simpa using hne
  · simp

theorem length_joinLines_le {ls : List Bytes} {n : Nat} (h : ∀ l ∈ ls, l.length ≤ n) :
    (joinLines ls).length ≤ ls.length * (n + 2) := by
  induction ls with
  | nil => exact Nat.zero_le _
  | cons l ls ih =>
    obtain ⟨hl, hls⟩ := List.forall_mem_cons.mp h
    have hrest := ih hls
    have hcrlf : crlf.length = 2 := rfl
    rw [joinLines, List.flatMap_cons, ← joinLines, List.length_append, List.length_append,
      List.length_cons, Nat.succ_mul]
    omega

theorem RequestText.length_print_le : text.print.length ≤ maxRequest := by
  have hline : ∀ l ∈ text.requestLine :: text.headers.map HeaderField.line, l.length ≤ 600 := by
    intro l hl
    have hspace : (ascii " ").length = 1 := rfl
    have hcolon : (ascii ": ").length = 2 := rfl
    rcases List.mem_cons.mp hl with rfl | hl
    · have hmethod := text.method.text.fits
      have hpath := text.path.text.fits
      have hversion := text.version.text.fits
      simp only [requestLine, List.length_append]
      omega
    · obtain ⟨field, -, rfl⟩ := List.mem_map.mp hl
      have hname := field.name.fits
      have hvalue := field.value.text.fits
      simp only [HeaderField.line, List.length_append]
      omega
  have hlines := length_joinLines_le hline
  have hcrlf : crlf.length = 2 := rfl
  have hcount := text.fits
  have hmax : maxRequest = 10485760 := rfl
  rw [List.length_cons, List.length_map] at hlines
  rw [RequestText.print, List.length_append]
  omega

variable {text}

theorem RequestText.IsSendable.isMessage (h : text.IsSendable homeDir disk) :
    IsMessage homeDir disk text.print where
  noNul := text.notMem_print
  framed := by
    obtain ⟨hhead, -⟩ := text.headLines_print
    have hmethod : isBodyless (text.print.takeWhile (· ≠ 32)) = true := by
      rw [text.method_print]
      exact h.bodyless
    exact frameEnd_bodyless hhead.ends (isBodyless_of_text hhead.ends hmethod)
  limit := text.length_print_le.trans (Nat.le_succ _)
  http := h.http
  answerable := by
    refine ⟨?_, ?_⟩
    · rw [cstr_eq_self text.notMem_print, text.headLines_print.2]
      exact text.headFits
    · intro code req hparse _ hroute
      rw [text.parse_text] at hparse
      cases hparse
      exact h.found hroute

theorem keepsOpen_print (text : RequestText) :
    keepsOpen homeDir disk text.print = keepsOpenFor homeDir disk 0 text.request := by
  rw [keepsOpen, text.parse_text]

theorem replyToText_print (text : RequestText) :
    replyToText homeDir disk text.print = replyTo homeDir disk 0 text.request := by
  rw [replyToText, text.parse_text]

/-- A client prints its requests and sends them one after the other, each cut as it likes. What it
reads off the connection are the replies to the requests that it printed, in their order, up to the
first that ends the session. -/
theorem requests_answered {texts : List RequestText} {messages : List (List Bytes)}
    (hcut : messages.map List.flatten = texts.map RequestText.print)
    (htexts : ∀ text ∈ texts, text.IsSendable homeDir disk) (hopen : conn ∈ w.fds)
    (htakes : w.Takes 4096) (hdisk : disk.IsRegular) :
    let answers := answered (fun text => keepsOpenFor homeDir disk 0 text.request) texts
    ∃ s, handleOneClientRequest mode conn homeDir disk (conversation messages ending) w = .ok s ∧
      s.served.length = answers.length ∧
      readAll readReply (responseBytes w s.worker) =
        some (answers.filterMap fun text => replyTo homeDir disk 0 text.request) := by
  intro answers
  have hmessages : ∀ segs ∈ messages, IsMessage homeDir disk segs.flatten := by
    intro segs hsegs
    have hmem : segs.flatten ∈ texts.map RequestText.print := hcut ▸ List.mem_map_of_mem hsegs
    obtain ⟨text, htext, hprint⟩ := List.mem_map.mp hmem
    rw [← hprint]
    exact (htexts text htext).isMessage
  have hanswers : answered (keepsOpen homeDir disk) (messages.map List.flatten) =
      answers.map RequestText.print := by
    rw [hcut, answered_map, answered_congr fun text _ => keepsOpen_print text]
  obtain ⟨s, hs, hconversed, hreplies⟩ := handle_conversation hmessages hopen htakes hdisk
  have hcount := hconversed.count
  rw [hanswers] at hcount hreplies
  rw [Nat.zero_add, List.length_map] at hcount
  refine ⟨s, hs, hcount, ?_⟩
  rw [hreplies, List.filterMap_map]
  congr 1
  exact List.filterMap_congr fun text _ => replyToText_print text

/-- A request of no method that is implemented, then one for a file that is not there, and one
that is not read any more. -/
theorem requests_answered_two :
    let disk : Disk := ⟨fun _ => false, fun _ => none⟩
    let keep : HeaderField :=
      { name := ⟨ascii "Connection", by decide, by decide⟩
        nonempty := by decide
        oneLine := by decide
        value := ⟨⟨ascii "keep-alive", by decide, by decide⟩, by decide, by decide +kernel⟩ }
    let options : Token 16 :=
      ⟨⟨ascii "OPTIONS", by decide, by decide⟩, by decide, by decide +kernel⟩
    let get : Token 16 := ⟨⟨ascii "GET", by decide, by decide⟩, by decide, by decide +kernel⟩
    let slash : Token 256 := ⟨⟨ascii "/", by decide, by decide⟩, by decide, by decide +kernel⟩
    let http : Token 16 := ⟨⟨ascii "HTTP/1.1", by decide, by decide⟩, by decide, by decide +kernel⟩
    let texts : List RequestText := [⟨options, slash, http, [keep], by decide⟩,
      ⟨get, slash, http, [keep], by decide⟩, ⟨get, slash, http, [], by decide⟩]
    let messages := texts.map fun text => [text.print.take 5, text.print.drop 5]
    ∃ s, handleOneClientRequest .blocking 5 [] disk (conversation messages .close) { fds := {5} } =
        .ok s ∧
      readAll readReply (responseBytes { fds := {5} } s.worker) =
        some [errorReply 501 (ascii "Not Implemented"), errorReply 404 (ascii "Not Found")] := by
  intro disk keep options get slash http texts messages
  have hcut : messages.map List.flatten = texts.map RequestText.print := by decide +kernel
  have hfound : ∃ path, requestPath slash.text = some path ∧
      (disk.readable ([] ++ path.bytes) → (disk.fopen ([] ++ path.bytes)).isSome →
        46 ∈ [] ++ path.bytes) := ⟨_, rfl, fun hreadable => absurd hreadable Bool.false_ne_true⟩
  have hsendable : ∀ text ∈ texts, text.IsSendable [] disk := by
    refine List.forall_mem_cons.mpr ⟨?_, List.forall_mem_cons.mpr ⟨?_, ?_⟩⟩
    · exact ⟨by decide +kernel, by decide +kernel, fun _ => hfound⟩
    · exact ⟨by decide +kernel, by decide +kernel, fun _ => hfound⟩
    · exact List.forall_mem_singleton.mpr ⟨by decide +kernel, by decide +kernel, fun _ => hfound⟩
  have hregular : disk.IsRegular := by
    rintro name file ⟨⟩
  have hrun : ∃ s, handleOneClientRequest .blocking 5 [] disk (conversation messages .close)
      { fds := {5} } = .ok s ∧ s.served.length = _ ∧ _ :=
    requests_answered hcut hsendable (Finset.mem_singleton_self 5) (by simp [Worker.Takes]) hregular
  obtain ⟨s, hs, -, hreplies⟩ := hrun
  exact ⟨s, hs, hreplies.trans (by decide +kernel)⟩

end Printed
end MinhServer
