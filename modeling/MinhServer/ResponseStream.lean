import MinhServer.Http.HeaderBuffer

namespace MinhServer
open CString Wire Stream

def errorReply (statusCode : Int) (statusMessage : Bytes) : Reply where
  statusCode := statusCode
  statusMessage := statusMessage
  contentType := ascii "text/plain"
  keepAlive := false
  body := statusMessage

/-- The reply that sends the file, if its name has a suffix at `dot`. -/
def fileReply (req : HttpRequest) (filepath : Bytes) (dot : Nat) (file : OpenFile) : Reply where
  statusCode := 200
  statusMessage := ascii "OK"
  contentType := mimeType (filepath.drop dot)
  keepAlive := !shouldCloseConnection req
  body := file.data

def staticReply (req : HttpRequest) (home : Bytes) (disk : Disk) : Option Reply :=
  match disk.fopen home with
  | none => some (errorReply 404 (ascii "Not Found"))
  | some file => (strrchr home 46).map fun dot => fileReply req home dot file

def getReply (req : HttpRequest) (homeDir : Bytes) (disk : Disk) : Option Reply :=
  (requestPath req.path).bind fun path =>
    if disk.readable (homeDir ++ path.bytes) then staticReply req (homeDir ++ path.bytes) disk
    else some (errorReply 404 (ascii "Not Found"))

/-- What a web server that leaves POST and HEAD unanswered says to a request. -/
def replyTo (homeDir : Bytes) (disk : Disk) (code : Int) (req : HttpRequest) : Option Reply :=
  if code < 0 then some (errorReply 400 (ascii "Bad Request"))
  else
    match route req with
    | .get => getReply req homeDir disk
    | .post | .head => none
    | .notImplemented => some (errorReply 501 (ascii "Not Implemented"))

def replyToText (homeDir : Bytes) (disk : Disk) (text : Bytes) : Option Reply :=
  match parseHttpRequest text .zeroed with
  | .ok (code, req) => replyTo homeDir disk code req
  | .error _ => none

/-- Every file has the size of its content. -/
def Disk.IsRegular (disk : Disk) : Prop := ∀ name file, disk.fopen name = some file → file.IsRegular

/-- Each coming `send` takes `n` bytes, or all it is given. -/
def Worker.Takes (n : Nat) (w : Worker) : Prop := ∀ outcome ∈ w.sends, ∃ k ≥ n, outcome = some k

section Texts
variable {req : HttpRequest} {homeDir filepath : Bytes} {disk : Disk} {code : Int} {reply : Reply}

theorem errorReply_header (statusCode : Int) (statusMessage : Bytes) :
    (errorReply statusCode statusMessage).header = errorHeader statusCode statusMessage := by
  have htype : ascii "Content-Type: text/plain" =
      ascii "Content-Type: " ++ ascii "text/plain" := rfl
  have hclose : ascii "Connection: close" = ascii "Connection: " ++ ascii "close" := rfl
  rw [errorHeader_eq, htype, hclose]
  rfl

theorem fileReply_header (req : HttpRequest) (filepath : Bytes) (dot : Nat) {file : OpenFile}
    (hfile : file.IsRegular) :
    (fileReply req filepath dot file).header = fileHeader (fileResponse req filepath dot file) := by
  rw [fileHeader_eq, contentLength_fileResponse hfile]
  rfl

theorem errorReply_printable {statusMessage : Bytes} (statusCode : Nat)
    (hcode : statusCode < 2 ^ 63) (hmessage : 13 ∉ statusMessage)
    (hlen : statusMessage.length < 2 ^ 63) : (errorReply statusCode statusMessage).Printable where
  code := by
    have hsame : (errorReply statusCode statusMessage).statusCode = statusCode := rfl
    omega
  message := hmessage
  type := by
    have hplain : 13 ∉ ascii "text/plain" := by decide
    exact hplain
  body := hlen

theorem fileReply_printable (req : HttpRequest) (filepath : Bytes) (dot : Nat) {file : OpenFile}
    (hfile : file.IsRegular) : (fileReply req filepath dot file).Printable where
  code := by
    have hcode : (fileReply req filepath dot file).statusCode = 200 := rfl
    omega
  message := notMem_message.2.2.2
  type := notMem_mimeType _
  body := hfile.2

theorem badRequest_printable : (errorReply 400 (ascii "Bad Request")).Printable :=
  errorReply_printable 400 (by decide) notMem_message.1 (by decide)

theorem notFound_printable : (errorReply 404 (ascii "Not Found")).Printable :=
  errorReply_printable 404 (by decide) notMem_message.2.1 (by decide)

theorem notImplemented_printable : (errorReply 501 (ascii "Not Implemented")).Printable :=
  errorReply_printable 501 (by decide) notMem_message.2.2.1 (by decide)

theorem staticReply_printable (hdisk : disk.IsRegular)
    (h : staticReply req filepath disk = some reply) : reply.Printable := by
  unfold staticReply at h
  split at h
  · cases h
    exact notFound_printable
  · next file hfile =>
    obtain ⟨dot, -, rfl⟩ := Option.map_eq_some_iff.mp h
    exact fileReply_printable req filepath dot (hdisk _ _ hfile)

theorem replyTo_printable (hdisk : disk.IsRegular)
    (h : replyTo homeDir disk code req = some reply) :
    reply.Printable := by
  unfold replyTo at h
  split at h
  · cases h
    exact badRequest_printable
  · split at h
    · obtain ⟨path, -, h⟩ := Option.bind_eq_some_iff.mp h
      split at h
      · exact staticReply_printable hdisk h
      · cases h
        exact notFound_printable
    · cases h
    · cases h
    · cases h
      exact notImplemented_printable

end Texts

/-- From `w` to `w'` the socket took exactly `text`, and it goes on to take `n` bytes at a time. -/
structure Delivers (n : Nat) (w w' : Worker) (text : Bytes) : Prop where
  log : w.log <+: w'.log
  bytes : responseBytes w w' = text
  takes : w'.Takes n

section Delivery
variable {conn : Int} {n : Nat} {w w' w'' : Worker} {text text' : Bytes}

namespace Delivers

theorem refl (h : w.Takes n) : Delivers n w w [] :=
  ⟨List.prefix_rfl, responseBytes_of_log (List.append_nil _).symm, h⟩

theorem trans (h : Delivers n w w' text) (h' : Delivers n w' w'' text') :
    Delivers n w w'' (text ++ text') := by
  refine ⟨h.log.trans h'.log, ?_, h'.takes⟩
  rw [responseBytes_trans h.log h'.log, h.bytes, h'.bytes]

theorem quiet (h : Delivers n w w' text) (calls : List Call) (hlog : w''.log = w'.log ++ calls)
    (hsilent : calls.flatMap Call.accepted = []) (hsends : w''.sends = w'.sends) :
    Delivers n w w'' text := by
  have hnext : Delivers n w' w'' [] := by
    refine ⟨⟨calls, hlog.symm⟩, ?_, fun outcome ho => h.takes outcome (hsends ▸ ho)⟩
    rw [responseBytes_of_log hlog, hsilent]
  have hboth := h.trans hnext
  rwa [List.append_nil] at hboth

theorem close (h : Delivers n w w' text) (fd : Int) : Delivers n w (w'.close fd) text :=
  h.quiet [.close fd] rfl rfl rfl

theorem fclose (h : Delivers n w w' text) (fd : Int) : Delivers n w (w'.fclose fd) text :=
  h.quiet [.fclose fd] rfl rfl rfl

theorem opened (h : Delivers n w w' text) (name : Bytes) (res : HttpResponse) :
    Delivers n w (w'.opened name res) text :=
  h.quiet [.fopen name (Worker.freeFd w'.fds)] rfl rfl rfl

theorem recv (h : Delivers n w w' text) (fd : Int) : Delivers n w (w'.record (.recv fd)) text :=
  h.quiet [.recv fd] rfl rfl rfl

theorem setTimeout (h : Delivers n w w' text) (fd : Int) (seconds : Nat) :
    Delivers n w (w'.record (.setTimeout fd seconds)) text :=
  h.quiet [.setTimeout fd seconds] rfl rfl rfl

end Delivers

theorem delivers_send (hopen : conn ∈ w.fds) (htakes : w.Takes n) (hlen : text.length ≤ n) :
    (w.send conn text).1 = true ∧ Delivers n w (w.send conn text).2 text := by
  have hlog := (OnlySends.send conn w text).log_extends
  unfold Worker.send at hlog ⊢
  rw [if_neg (not_not.mpr hopen)] at hlog ⊢
  cases hsends : w.sends with
  | nil =>
    rw [hsends] at hlog
    refine ⟨rfl, hlog, ?_, ?_⟩
    · rw [responseBytes_of_log rfl]
      simp [Call.accepted]
    · intro outcome ho
      simp [Worker.record, hsends] at ho
  | cons outcome rest =>
    rw [hsends] at hlog
    obtain ⟨k, hk, rfl⟩ := htakes outcome (by simp [hsends])
    have hall : text.take k = text := List.take_of_length_le (hlen.trans hk)
    refine ⟨rfl, hlog, ?_, fun o ho => htakes o ?_⟩
    · rw [responseBytes_of_log rfl]
      simp [Call.accepted, hall]
    · rw [hsends]
      exact List.mem_cons_of_mem _ ho

theorem delivers_errorResponse {statusCode : Int} {statusMessage : Bytes} (hopen : conn ∈ w.fds)
    (htakes : w.Takes 4096) (hheader : (errorHeader statusCode statusMessage).length ≤ 4096)
    (hmessage : statusMessage.length ≤ 4096) :
    Delivers 4096 w (sendErrorResponse conn statusCode statusMessage w)
      (errorReply statusCode statusMessage).text := by
  obtain ⟨hsent, hfirst⟩ := delivers_send hopen htakes hheader
  have hfds := (OnlySends.send conn w (errorHeader statusCode statusMessage)).fds
  have hrest := (delivers_send (hfds ▸ hopen) hfirst.takes hmessage).2
  have hwhole := hfirst.trans hrest
  unfold sendErrorResponse
  dsimp only
  rw [if_pos hsent, Reply.text, errorReply_header]
  exact hwhole

theorem delivers_fileData (hopen : conn ∈ w.fds) (htakes : w.Takes 4096) (data : Bytes) :
    Delivers 4096 w (sendFileData conn data w) data := by
  induction data using blocks.induct generalizing w with
  | case1 =>
    rw [sendFileData, dif_pos rfl]
    exact .refl htakes
  | case2 data hne ih =>
    obtain ⟨hsent, hblock⟩ := delivers_send hopen htakes (List.length_take_le 4096 data)
    have hfds := (OnlySends.send conn w (data.take 4096)).fds
    have hrest := hblock.trans (ih (hfds ▸ hopen) hblock.takes)
    rw [List.take_append_drop] at hrest
    rw [sendFileData, dif_neg hne]
    dsimp only
    rw [if_pos hsent]
    exact hrest

end Delivery

/-- The text of a reply; nothing without one. -/
def replyText (reply : Option Reply) : Bytes := (reply.map Reply.text).getD []

section Answers
variable {conn : Int} {req req' : HttpRequest} {homeDir filepath text : Bytes} {disk : Disk}
  {w w' : Worker}

theorem delivers_notFound (hopen : conn ∈ w.fds) (htakes : w.Takes 4096) :
    Delivers 4096 w (sendErrorResponse conn 404 (ascii "Not Found") w)
      (errorReply 404 (ascii "Not Found")).text :=
  delivers_errorResponse hopen htakes (by have := length_errorHeader_lt.2.1; omega) (by decide)

theorem delivers_staticFile (hopen : conn ∈ w.fds) (htakes : w.Takes 4096) (hdisk : disk.IsRegular)
    (hok : sendStaticFile conn req filepath disk w = .ok w') :
    Delivers 4096 w w' (replyText (staticReply req filepath disk)) := by
  cases hfile : disk.fopen filepath with
  | none =>
    rw [sendStaticFile, hfile] at hok
    cases hok
    rw [staticReply, hfile]
    exact (delivers_notFound hopen htakes).close conn
  | some file =>
    obtain ⟨dot, hdot⟩ := exists_suffix (sendStaticFile_suffix hok (by simp [hfile]))
    have hreply : replyText (staticReply req filepath disk) =
        (fileReply req filepath dot file).text := by
      rw [staticReply, hfile]
      simp only [hdot, replyText, Option.map_some, Option.getD_some]
    rw [sendStaticFile_found hfile hdot] at hok
    have hlen := length_fileHeader_lt req filepath dot file
    rw [hreply, Reply.text, fileReply_header req filepath dot (hdisk _ _ hfile)]
    have hdata : (fileReply req filepath dot file).body = file.data := rfl
    rw [hdata]
    generalize fileResponse req filepath dot file = res at hok hlen ⊢
    have hopened : Delivers 4096 w (w.opened filepath res) [] :=
      (Delivers.refl htakes).opened filepath res
    have hstill : conn ∈ (w.opened filepath res).fds := Finset.mem_insert_of_mem hopen
    obtain ⟨hsent, hheader⟩ := delivers_send hstill hopened.takes (hlen.le.trans (by decide))
    have hfds := (OnlySends.send conn (w.opened filepath res) (fileHeader res)).fds
    dsimp only at hok
    rw [if_pos hsent] at hok
    cases hok
    have hboth := (hopened.trans hheader).trans
      (delivers_fileData (hfds ▸ hstill) hheader.takes file.data)
    exact hboth.fclose _

theorem delivers_getRequest (hopen : conn ∈ w.fds) (htakes : w.Takes 4096) (hdisk : disk.IsRegular)
    (hok : handleGetRequest conn req homeDir disk w = .ok (req', w')) :
    Delivers 4096 w w' (replyText (getReply req homeDir disk)) := by
  obtain ⟨path, hpath, rfl, ⟨hreadable, rfl⟩ | ⟨hreadable, hv⟩⟩ := handleGetRequest_cases hok
  · rw [getReply, hpath, Option.bind_some, if_neg hreadable]
    exact (delivers_notFound hopen htakes).close conn
  · rw [getReply, hpath, Option.bind_some, if_pos hreadable]
    exact delivers_staticFile hopen htakes hdisk hv

theorem delivers_answer (hopen : conn ∈ w.fds) (htakes : w.Takes 4096) (hdisk : disk.IsRegular)
    (hok : handleHttpRequest conn .zeroed text homeDir disk w = .ok (req', w')) :
    Delivers 4096 w w' (replyText (replyToText homeDir disk text)) := by
  obtain ⟨hbad, -, himplemented⟩ := length_errorHeader_lt
  obtain ⟨code, parsed, hparse, ⟨hcode, -, rfl⟩ | ⟨hcode, v, hanswer, rfl⟩⟩ :=
    handleHttpRequest_cases hok
  · rw [replyToText, hparse]
    simp only [replyTo, if_pos hcode]
    exact (delivers_errorResponse hopen htakes (by omega) (by decide)).close conn
  · have hv : Delivers 4096 w v (replyText (replyToText homeDir disk text)) := by
      rw [replyToText, hparse]
      simp only [replyTo, if_neg (not_lt.mpr hcode)]
      rcases answer_cases hanswer with ⟨hroute, hget⟩ | ⟨hroute | hroute, -, rfl⟩ | ⟨hroute, -, rfl⟩
      · rw [hroute]
        exact delivers_getRequest hopen htakes hdisk hget
      · rw [hroute]
        exact .refl htakes
      · rw [hroute]
        exact .refl htakes
      · rw [hroute]
        exact delivers_errorResponse hopen htakes (by omega) (by decide)
    split
    · exact hv.close conn
    · exact hv

end Answers

section Hands
variable (mode : Mode) (conn : Int) (homeDir : Bytes) (disk : Disk)

/-- From round `x` on the loop hands exactly these texts to `handleHttpRequest`, in this
order. -/
inductive Hands : Peer Byte × Worker → List Bytes → Prop where
  | last {p w p'} (last : LastRound mode conn p w p') : Hands (p, w) []
  | closing {x text w req w'} (handles : Handles mode conn x text w)
      (handle : handleHttpRequest conn .zeroed text homeDir disk w = .ok (req, w'))
      (close : shouldCloseConnection req = true) : Hands x [text]
  | keeping {x y text w texts} (handles : Handles mode conn x text w)
      (next : NextRound mode conn homeDir disk x y) (rest : Hands y texts) : Hands x (text :: texts)
  | other {p w r p' texts} (recv : receive mode conn p w = (some r, p'))
      (text : cstr r.memory ≠ []) (type : ¬ IsHttp r.memory)
      (rest : Hands (p', (w.record (.recv conn)).record (.setTimeout conn 5)) texts) :
      Hands (p, w) texts

end Hands

section Session
variable {mode : Mode} {conn : Int} {homeDir : Bytes} {disk : Disk} {peer : Peer Byte}
  {w : Worker} {s : Session} {served : List HttpRequest}

/-- What the loop sends are the replies to the texts it handles. -/
theorem serveRequests_delivers (h : serveRequests mode conn homeDir disk peer w served = .ok s)
    (htakes : w.Takes 4096) (hdisk : disk.IsRegular) :
    ∃ texts, Hands mode conn homeDir disk (peer, w) texts ∧
      s.served.length = served.length + texts.length ∧
      Delivers 4096 w s.worker
        (texts.flatMap fun text => replyText (replyToText homeDir disk text)) := by
  have hstart : ∀ v : Worker, v.Takes 4096 → Delivers 4096 v (v.record (.recv conn)) [] :=
    fun v hv => (Delivers.refl hv).recv conn
  induction peer, w using loop_induction mode conn generalizing served with
  | last p w p' hlast =>
    rw [serveRequests_last hlast, Except.ok.injEq] at h
    subst h
    exact ⟨[], .last hlast, rfl, (hstart w htakes).close conn⟩
  | http p w r p' hr ht htype ih =>
    rw [serveRequests_http hr ht htype] at h
    obtain ⟨⟨req, v⟩, hhandle, h⟩ := bind_eq_ok.mp h
    have hhandles : Handles mode conn (p, w) r.memory (w.record (.recv conn)) := .intro hr htype
    have hrecv := hstart w htakes
    have hanswer := hrecv.trans (delivers_answer (open_of_receive hr) hrecv.takes hdisk hhandle)
    rw [List.nil_append] at hanswer
    dsimp only at h
    split at h
    · next hclose =>
      rw [Except.ok.injEq] at h
      subst h
      refine ⟨[r.memory], .closing hhandles hhandle hclose, by simp, ?_⟩
      rw [List.flatMap_cons, List.flatMap_nil, List.append_nil]
      exact hanswer.close conn
    · next hkeep =>
      have hnext := hanswer.setTimeout conn 5
      obtain ⟨texts, hhands, hlen, hrest⟩ := ih _ h hnext.takes
      refine ⟨r.memory :: texts, ?_, ?_, ?_⟩
      · exact .keeping hhandles (.http hr htype hhandle (Bool.eq_false_iff.mpr hkeep)) hhands
      · simp only [List.length_append, List.length_cons, List.length_nil] at hlen ⊢
        omega
      · rw [List.flatMap_cons]
        exact hnext.trans hrest
  | other p w r p' hr ht htype ih =>
    rw [serveRequests_other hr ht htype] at h
    have hnext := (hstart w htakes).setTimeout conn 5
    obtain ⟨texts, hhands, hlen, hrest⟩ := ih _ h hnext.takes
    have hall := hnext.trans hrest
    rw [List.nil_append] at hall
    exact ⟨texts, .other hr ht htype hhands, hlen, hall⟩

theorem spells_replies (hdisk : disk.IsRegular) (texts : List Bytes) :
    List.Forall₂ (Spells readReply) ((texts.filterMap (replyToText homeDir disk)).map Reply.text)
      (texts.filterMap (replyToText homeDir disk)) := by
  rw [List.forall₂_map_left_iff, List.forall₂_same]
  intro reply hreply
  obtain ⟨text, -, hreply⟩ := List.mem_filterMap.mp hreply
  unfold replyToText at hreply
  split at hreply
  · exact Reply.spells (replyTo_printable hdisk hreply)
  · cases hreply

theorem flatMap_replyText (texts : List Bytes) :
    (texts.flatMap fun text => replyText (replyToText homeDir disk text)) =
      ((texts.filterMap (replyToText homeDir disk)).map Reply.text).flatten := by
  induction texts with
  | nil => rfl
  | cons text texts ih =>
    rw [List.flatMap_cons, ih]
    cases hreply : replyToText homeDir disk text with
    | none => rw [List.filterMap_cons_none hreply, replyText, Option.map_none, Option.getD_none,
        List.nil_append]
    | some reply => rw [List.filterMap_cons_some hreply, replyText, Option.map_some,
        Option.getD_some, List.map_cons, List.flatten_cons]

end Session

/-- On a socket that takes 4096 bytes at a time a client reads off the stream of a session one
reply for each request that was handled and has one, in the order of the requests, and
nothing else. -/
theorem session_replies {mode : Mode} {conn : Int} {homeDir : Bytes} {disk : Disk}
    {peer : Peer Byte} {w : Worker} {s : Session}
    (h : handleOneClientRequest mode conn homeDir disk peer w = .ok s) (htakes : w.Takes 4096)
    (hdisk : disk.IsRegular) :
    ∃ texts, Hands mode conn homeDir disk (peer, w.record (.setTimeout conn 30)) texts ∧
      s.served.length = texts.length ∧
      readAll readReply (responseBytes w s.worker) =
        some (texts.filterMap (replyToText homeDir disk)) := by
  have hstart := (Delivers.refl htakes).setTimeout conn 30
  obtain ⟨texts, hhands, hlen, hrest⟩ := serveRequests_delivers h hstart.takes hdisk
  have hbytes := (hstart.trans hrest).bytes
  refine ⟨texts, hhands, by simpa using hlen, ?_⟩
  rw [hbytes, List.nil_append, flatMap_replyText]
  exact readAll_flatten (spells_replies hdisk texts)

/-- A method that is not known and then a missing file: two replies are read. -/
theorem session_replies_two :
    let disk : Disk := ⟨fun _ => false, fun _ => none⟩
    let peer : Peer Byte := ⟨[.data (ascii "OPTIONS /a HTTP/1.1\r\nConnection: keep-alive\r\n\r\n"),
      .data (ascii "GET /a HTTP/1.1\r\n\r\n")], .close⟩
    let w : Worker := { fds := {5}, sends := [some 4096, some 5000] }
    ∃ s texts, handleOneClientRequest .blocking 5 [] disk peer w = .ok s ∧ List.length texts = 2 ∧
      readAll readReply (responseBytes w s.worker) =
        some (texts.filterMap (replyToText [] disk)) := by
  intro disk peer w
  have hok : (handleOneClientRequest .blocking 5 [] disk peer w).map (·.served.length) = .ok 2 := by
    decide +kernel
  obtain ⟨s, hs, hserved⟩ := map_eq_ok.mp hok
  have htakes : w.Takes 4096 := by
    simp [Worker.Takes, w]
  have hdisk : disk.IsRegular := by
    rintro name file ⟨⟩
  obtain ⟨texts, -, hlen, hreplies⟩ := session_replies hs htakes hdisk
  exact ⟨s, texts, hs, hlen.symm.trans hserved, hreplies⟩

def HttpResponse.reply (resp : HttpResponse) : Reply where
  statusCode := resp.statusCode
  statusMessage := resp.statusMessage.getD []
  contentType := resp.contentType.getD []
  keepAlive := resp.keepAlive
  body := resp.body.getD []

/-- The structure is filled in, its header fits the buffer and its body a `send` of `n`
bytes. -/
structure HttpResponse.Complete (n : Nat) (resp : HttpResponse) : Prop where
  message : resp.statusMessage.isSome
  type : resp.contentType.isSome
  printable : resp.reply.Printable
  length : resp.contentLength = resp.reply.body.length
  header : resp.reply.header.length < 4096
  body : resp.reply.body.length ≤ n

section Structures
variable {conn : Int} {n : Nat} {resp : HttpResponse} {w w' : Worker}

theorem responseHeader_eq (hlength : resp.contentLength = resp.reply.body.length) :
    responseHeader resp resp.reply.statusMessage resp.reply.contentType = resp.reply.header := by
  have hserver : ascii "Server: minhServer\r\n" = ascii "Server: minhServer" ++ crlf := rfl
  simp only [responseHeader, Reply.header, Reply.lines, joinLines, hserver, hlength,
    List.flatMap_cons, List.flatMap_nil, List.append_assoc, List.append_nil]
  rfl

theorem delivers_body (h : resp.Complete n) (hopen : conn ∈ w.fds) (htakes : w.Takes n) :
    ∃ w', sendBody conn resp w = .ok w' ∧ w'.fds = w.fds ∧ Delivers n w w' resp.reply.body := by
  have hlength := h.length
  have hfits := h.body
  unfold sendBody
  simp only [HttpResponse.reply] at hlength hfits ⊢
  cases hbody : resp.body with
  | none => exact ⟨w, rfl, rfl, .refl htakes⟩
  | some body =>
    rw [hbody, Option.getD_some] at hlength hfits
    dsimp only
    split
    · next hzero =>
      have hnil : body = [] := List.eq_nil_of_length_eq_zero (hlength ▸ hzero)
      refine ⟨w, rfl, rfl, ?_⟩
      rw [Option.getD_some, hnil]
      exact .refl htakes
    · rw [if_neg (by omega), hlength, List.take_length]
      exact ⟨_, rfl, (OnlySends.send conn w body).fds, (delivers_send hopen htakes hfits).2⟩

theorem delivers_response (h : resp.Complete n) (hn : 4096 ≤ n) (hopen : conn ∈ w.fds)
    (htakes : w.Takes n) : ∃ w', sendHttpResponse conn resp w = .ok w' ∧ w'.fds = w.fds ∧
      Delivers n w w' resp.reply.text := by
  obtain ⟨message, hmessage⟩ := Option.isSome_iff_exists.mp h.message
  obtain ⟨type, htype⟩ := Option.isSome_iff_exists.mp h.type
  have hheader : responseHeader resp message type = resp.reply.header := by
    have heq := responseHeader_eq h.length
    simpa only [HttpResponse.reply, hmessage, htype, Option.getD_some] using heq
  have hfits := h.header
  obtain ⟨hsent, hfirst⟩ := delivers_send hopen htakes (hfits.le.trans hn)
  have hfds := (OnlySends.send conn w resp.reply.header).fds
  obtain ⟨w', hok, hfds', hbody⟩ := delivers_body h (hfds ▸ hopen) hfirst.takes
  refine ⟨w', ?_, hfds'.trans hfds, hfirst.trans hbody⟩
  simp only [sendHttpResponse, hmessage, htype, hheader, formatted_eq_self hfits, Bind.bind,
    Except.bind, hsent, if_true, hok]

theorem delivers_responses (hn : 4096 ≤ n) {resps : List HttpResponse}
    (hresps : ∀ resp ∈ resps, resp.Complete n) (hopen : conn ∈ w.fds) (htakes : w.Takes n) :
    ∃ w', sendResponses conn resps w = .ok w' ∧
      Delivers n w w' (resps.flatMap fun resp => resp.reply.text) := by
  induction resps generalizing w with
  | nil => exact ⟨w, rfl, .refl htakes⟩
  | cons resp resps ih =>
    obtain ⟨hresp, hrest⟩ := List.forall_mem_cons.mp hresps
    obtain ⟨v, hv, hfds, hfirst⟩ := delivers_response hresp hn hopen htakes
    obtain ⟨w', hw', hall⟩ := ih hrest (hfds ▸ hopen) hfirst.takes
    refine ⟨w', ?_, ?_⟩
    · simp only [sendResponses, hv, Bind.bind, Except.bind, hw']
    · rw [List.flatMap_cons]
      exact hfirst.trans hall

end Structures

/-- Responses that are sent one after the other are read back one after the other, with every
field of the structures. -/
theorem sendResponses_replies {conn : Int} {n : Nat} {resps : List HttpResponse} {w : Worker}
    (hn : 4096 ≤ n) (hresps : ∀ resp ∈ resps, resp.Complete n) (hopen : conn ∈ w.fds)
    (htakes : w.Takes n) :
    ∃ w', sendResponses conn resps w = .ok w' ∧
      readAll readReply (responseBytes w w') = some (resps.map HttpResponse.reply) := by
  obtain ⟨w', hok, hdelivers⟩ := delivers_responses hn hresps hopen htakes
  refine ⟨w', hok, ?_⟩
  have hspells : List.Forall₂ (Spells readReply) (resps.map fun resp => resp.reply.text)
      (resps.map HttpResponse.reply) := by
    rw [List.forall₂_map_left_iff, List.forall₂_map_right_iff, List.forall₂_same]
    exact fun resp hresp => Reply.spells (hresps resp hresp).printable
  rw [hdelivers.bytes, List.flatMap_def]
  exact readAll_flatten hspells

/-- An error and then a response without a body. -/
theorem sendResponses_replies_two :
    let resps : List HttpResponse := [
      { statusCode := 404, statusMessage := some (ascii "Not Found"),
        contentType := some (ascii "text/plain"), contentLength := 9,
        body := some (ascii "Not Found") },
      { statusCode := 204, statusMessage := some (ascii "No Content"), contentType := some [],
        keepAlive := true }]
    ∃ w', sendResponses 5 resps { fds := {5}, sends := [some 5000] } = .ok w' ∧
      readAll readReply (responseBytes { fds := {5}, sends := [some 5000] } w') =
        some (resps.map HttpResponse.reply) := by
  intro resps
  refine sendResponses_replies (n := 4096) le_rfl ?_ (by decide) (by simp [Worker.Takes])
  intro resp hresp
  simp only [resps, List.mem_cons, List.not_mem_nil, or_false] at hresp
  rcases hresp with rfl | rfl
  · refine ⟨rfl, rfl, notFound_printable, by decide, by decide +kernel, by decide⟩
  · refine ⟨rfl, rfl, ⟨by decide, ?_, ?_, by decide⟩, by decide, by decide +kernel, by decide⟩
    · show 13 ∉ ascii "No Content"
      decide
    · exact List.not_mem_nil

end MinhServer
