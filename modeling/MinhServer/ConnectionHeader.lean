import MinhServer.Http.Head
import MinhServer.Independence

namespace MinhServer
open CString Wire

theorem notMem_repr (k : Nat) : 13 ∉ ascii k.repr := by
  intro hmem
  obtain ⟨c, hc, hcr⟩ := List.mem_map.mp hmem
  rw [Nat.toList_repr] at hc
  have hdigit := Nat.isDigit_of_mem_toDigits (by decide) (by decide) hc
  simp only [Char.isDigit, Bool.and_eq_true, decide_eq_true_eq] at hdigit
  obtain ⟨hlow, hhigh⟩ := hdigit
  have hbyte := congrArg UInt8.toNat hcr
  have hval : c.toNat = c.val.toNat := rfl
  have hlow' : 48 ≤ c.val.toNat := UInt32.le_iff_toNat_le.mp hlow
  have hhigh' : c.val.toNat ≤ 57 := UInt32.le_iff_toNat_le.mp hhigh
  have hcr' : (13 : Byte).toNat = 13 := rfl
  simp only [Nat.toUInt8, UInt8.toNat_ofNat', hval, hcr'] at hbyte
  omega

theorem notMem_printInt (n : Int) : 13 ∉ printInt n := by
  cases n with
  | ofNat k => exact notMem_repr k
  | negSucc k =>
    have hneg : toString (Int.negSucc k) = "-" ++ (k + 1).repr := rfl
    have hminus : 13 ∉ ascii "-" := by decide
    rw [printInt, hneg, ascii, String.toList_append, List.map_append]
    exact List.not_mem_append hminus (notMem_repr _)

theorem isLine_labelled {label text : Bytes} (hne : label ≠ []) (hlabel : 13 ∉ label)
    (htext : 13 ∉ text) : IsLine (label ++ text) :=
  .of_notMem (List.append_ne_nil_of_left_ne_nil hne text) (List.not_mem_append hlabel htext)

theorem isLine_status (statusCode : Int) {statusMessage : Bytes} (hmessage : 13 ∉ statusMessage) :
    IsLine (ascii "HTTP/1.1 " ++ printInt statusCode ++ ascii " " ++ statusMessage) := by
  have hcode := List.not_mem_append (by decide : 13 ∉ ascii "HTTP/1.1 ") (notMem_printInt statusCode)
  apply isLine_labelled _ _ hmessage
  · simp [ascii]
  · exact List.not_mem_append hcode (by decide)

theorem isLine_contentLength (n : Int) : IsLine (ascii "Content-Length: " ++ printInt n) :=
  isLine_labelled (by decide) (by decide) (notMem_printInt n)

theorem errorHeader_eq (statusCode : Int) (statusMessage : Bytes) :
    errorHeader statusCode statusMessage = joinLines [
      ascii "HTTP/1.1 " ++ printInt statusCode ++ ascii " " ++ statusMessage,
      ascii "Server: minhServer", ascii "Content-Type: text/plain",
      ascii "Content-Length: " ++ printInt statusMessage.length,
      ascii "Connection: close"] ++ crlf := by
  have hserver : ascii "Server: minhServer\r\n" = ascii "Server: minhServer" ++ crlf := rfl
  have htype : ascii "Content-Type: text/plain\r\n" = ascii "Content-Type: text/plain" ++ crlf := rfl
  have hclose : ascii "Connection: close\r\n" = ascii "Connection: close" ++ crlf := rfl
  simp only [errorHeader, joinLines, hserver, htype, hclose, List.flatMap_cons, List.flatMap_nil,
    List.append_assoc, List.append_nil]

theorem fileHeader_eq (res : HttpResponse) :
    fileHeader res = joinLines [
      ascii "HTTP/1.1 " ++ printInt res.statusCode ++ ascii " " ++ res.statusMessage.getD [],
      ascii "Server: minhServer", ascii "Content-Type: " ++ res.contentType.getD [],
      ascii "Content-Length: " ++ printInt ((res.contentLength : Int).bmod (2 ^ 64)),
      ascii "Connection: " ++ if res.keepAlive then ascii "keep-alive" else ascii "close"] ++ crlf := by
  have hserver : ascii "Server: minhServer\r\n" = ascii "Server: minhServer" ++ crlf := rfl
  simp only [fileHeader, joinLines, hserver, List.flatMap_cons, List.flatMap_nil,
    List.append_assoc, List.append_nil]

theorem notMem_ascii {cs : List Char} (h : cs.all (fun c => c.toNat.toUInt8 != 13) = true) :
    13 ∉ ascii (String.ofList cs) := by
  intro hmem
  rw [ascii, String.toList_ofList, List.mem_map] at hmem
  obtain ⟨c, hc, hcr⟩ := hmem
  have hne := List.all_eq_true.mp h c hc
  simp [hcr] at hne

-- row by row: the kernel takes long to decode all the names at once
theorem notMem_sMime : ∀ row ∈ sMime, 13 ∉ ascii row.2 := by
  unfold sMime
  repeat refine List.forall_mem_cons.mpr ⟨notMem_ascii rfl, ?_⟩
  exact List.forall_mem_nil _

theorem notMem_mimeType (suffix : Bytes) : 13 ∉ mimeType suffix := by
  unfold mimeType
  split
  · next row hrow => exact notMem_sMime row (List.mem_of_find?_eq_some hrow)
  · exact List.not_mem_nil

def keepAliveLine : Bytes := ascii "Connection: keep-alive"

theorem ne_of_getElem? {a b : Bytes} (n : Nat) (h : a[n]? ≠ b[n]?) : a ≠ b :=
  fun heq => h (heq ▸ rfl)

theorem keepAlive_notMem_errorHeader (statusCode : Int) {statusMessage : Bytes}
    (hmessage : 13 ∉ statusMessage) (body : Bytes) :
    keepAliveLine ∉ headLines (errorHeader statusCode statusMessage ++ body) := by
  rw [errorHeader_eq, headLines_joinLines _ (List.cons_ne_nil _ _)]
  · -- lines with a number in them differ from it in a byte before the number
    simp only [List.mem_cons, List.not_mem_nil, or_false, not_or]
    refine ⟨ne_of_getElem? 0 ?_, ?_, ?_, ne_of_getElem? 3 ?_, ?_⟩
    · show some 67 ≠ some 72
      decide
    · decide
    · decide
    · show some 110 ≠ some 116
      decide
    · decide
  · intro l hl
    simp only [List.mem_cons, List.not_mem_nil, or_false] at hl
    rcases hl with rfl | rfl | rfl | rfl | rfl
    · exact isLine_status statusCode hmessage
    · exact .of_notMem (by decide) (by decide)
    · exact .of_notMem (by decide) (by decide)
    · exact isLine_contentLength _
    · exact .of_notMem (by decide) (by decide)

theorem keepAlive_mem_fileHeader_iff {res : HttpResponse}
    (hmessage : 13 ∉ res.statusMessage.getD []) (htype : 13 ∉ res.contentType.getD [])
    (body : Bytes) : keepAliveLine ∈ headLines (fileHeader res ++ body) ↔ res.keepAlive := by
  rw [fileHeader_eq, headLines_joinLines _ (List.cons_ne_nil _ _)]
  · simp only [List.mem_cons, List.not_mem_nil, or_false]
    have hstatus : keepAliveLine ≠ ascii "HTTP/1.1 " ++ printInt res.statusCode ++ ascii " " ++
        res.statusMessage.getD [] := ne_of_getElem? 0 (by show some 67 ≠ some 72; decide)
    have hserver : keepAliveLine ≠ ascii "Server: minhServer" := by decide
    have htype : keepAliveLine ≠ ascii "Content-Type: " ++ res.contentType.getD [] :=
      ne_of_getElem? 3 (by show some 110 ≠ some 116; decide)
    have hlength : keepAliveLine ≠ ascii "Content-Length: " ++
        printInt ((res.contentLength : Int).bmod (2 ^ 64)) :=
      ne_of_getElem? 3 (by show some 110 ≠ some 116; decide)
    simp only [hstatus, hserver, htype, hlength, false_or]
    cases res.keepAlive <;> decide
  · intro l hl
    simp only [List.mem_cons, List.not_mem_nil, or_false] at hl
    rcases hl with rfl | rfl | rfl | rfl | rfl
    · exact isLine_status res.statusCode hmessage
    · exact .of_notMem (by decide) (by decide)
    · exact isLine_labelled (by decide) (by decide) htype
    · exact isLine_contentLength _
    · apply isLine_labelled (by decide) (by decide)
      cases res.keepAlive <;> decide

/-- The call of the next `send` on the open connection. -/
def Worker.sendCall (w : Worker) (conn : Int) (bytes : Bytes) : Call :=
  match w.sends with
  | [] => .send conn (some bytes)
  | none :: _ => .send conn none
  | some n :: _ => .send conn (some (bytes.take n))

/-- `c` is the first send from `w` to `w'`. -/
def Begins (w : Worker) (c : Call) (w' : Worker) : Prop :=
  ∃ quiet calls, w'.log = w.log ++ (quiet ++ c :: calls) ∧ ∀ d ∈ quiet, d.isSend = false

section Begins
variable {conn : Int} {c : Call} {w w' w'' : Worker}

theorem isSend_sendCall (w : Worker) (conn : Int) (bytes : Bytes) :
    (w.sendCall conn bytes).isSend = true := by
  unfold Worker.sendCall
  split <;> rfl

theorem begins_send (hopen : conn ∈ w.fds) (bytes : Bytes) :
    Begins w (w.sendCall conn bytes) (w.send conn bytes).2 := by
  refine ⟨[], [], ?_, by simp⟩
  unfold Worker.sendCall Worker.send
  rw [if_neg (not_not.mpr hopen)]
  cases w.sends with
  | nil => rfl
  | cons outcome rest => cases outcome <;> rfl

theorem Begins.later (h : Begins w c w') (hmore : w'.log <+: w''.log) : Begins w c w'' := by
  obtain ⟨quiet, calls, hlog, hquiet⟩ := h
  obtain ⟨more, hmore⟩ := hmore
  refine ⟨quiet, calls ++ more, ?_, hquiet⟩
  rw [← hmore, hlog, List.append_assoc, List.append_assoc, List.cons_append]

theorem Begins.sends (h : Begins w c w') (hw : OnlySends conn w' w'') : Begins w c w'' := by
  obtain ⟨calls, hlog, -⟩ := hw.log
  exact h.later ⟨calls, hlog.symm⟩

theorem Begins.close (h : Begins w c w') : Begins w c (w'.close conn) := h.later ⟨[.close conn], rfl⟩

theorem Begins.fclose (h : Begins w c w') (fd : Int) : Begins w c (w'.fclose fd) :=
  h.later ⟨[.fclose fd], rfl⟩

theorem Begins.sentBetween_eq (h : Begins w c w') (hc : c.isSend = true) :
    ∃ rest, sentBetween w w' = c :: rest := by
  obtain ⟨quiet, calls, hlog, hquiet⟩ := h
  refine ⟨calls.filter Call.isSend, ?_⟩
  have hnone : quiet.filter Call.isSend = [] := by
    rw [List.filter_eq_nil_iff]
    intro d hd
    simp [hquiet d hd]
  rw [sentBetween, hlog, List.drop_left, List.filter_append, hnone, List.nil_append,
    List.filter_cons_of_pos hc]

theorem begins_errorResponse (hopen : conn ∈ w.fds) (statusCode : Int) (statusMessage : Bytes) :
    Begins w (w.sendCall conn (errorHeader statusCode statusMessage))
      (sendErrorResponse conn statusCode statusMessage w) := by
  have hheader := begins_send hopen (errorHeader statusCode statusMessage)
  unfold sendErrorResponse
  dsimp only
  split
  · exact hheader.sends (OnlySends.send conn _ statusMessage)
  · exact hheader

end Begins

/-- The header that `sendStaticFile` sends. -/
def staticHeader (req : HttpRequest) (home : Bytes) (disk : Disk) : Option Bytes :=
  match disk.fopen home with
  | none => some (errorHeader 404 (ascii "Not Found"))
  | some file => (strrchr home 46).map fun dot => fileHeader (fileResponse req home dot file)

def getHeader (req : HttpRequest) (homeDir : Bytes) (disk : Disk) : Option Bytes :=
  (requestPath req.path).bind fun path =>
    if disk.readable (homeDir ++ path.bytes) then staticHeader req (homeDir ++ path.bytes) disk
    else some (errorHeader 404 (ascii "Not Found"))

/-- The header that a request is answered with, if it is answered. -/
def answerHeader (code : Int) (req : HttpRequest) (homeDir : Bytes) (disk : Disk) : Option Bytes :=
  if code < 0 then some (errorHeader 400 (ascii "Bad Request"))
  else
    match route req with
    | .get => getHeader req homeDir disk
    | .post | .head => none
    | .notImplemented => some (errorHeader 501 (ascii "Not Implemented"))

section Answers
variable {conn : Int} {homeDir filepath text : Bytes} {disk : Disk} {req req' : HttpRequest}
  {w w' : Worker}

theorem staticFile_begins (hopen : conn ∈ w.fds)
    (hok : sendStaticFile conn req filepath disk w = .ok w') :
    ∃ header, staticHeader req filepath disk = some header ∧
      Begins w (w.sendCall conn header) w' := by
  cases hfile : disk.fopen filepath with
  | none =>
    rw [sendStaticFile, hfile] at hok
    cases hok
    exact ⟨_, by rw [staticHeader, hfile], (begins_errorResponse hopen 404 _).close⟩
  | some file =>
    obtain ⟨dot, hdot⟩ := exists_suffix (sendStaticFile_suffix hok (by simp [hfile]))
    refine ⟨fileHeader (fileResponse req filepath dot file), ?_, ?_⟩
    · simp only [staticHeader, hfile, hdot, Option.map_some]
    rw [sendStaticFile_found hfile hdot] at hok
    generalize fileResponse req filepath dot file = res at hok ⊢
    have hsend : Begins w (w.sendCall conn (fileHeader res))
        ((w.opened filepath res).send conn (fileHeader res)).2 := by
      obtain ⟨quiet, calls, hlog, hquiet⟩ :=
        begins_send (w := w.opened filepath res) (Finset.mem_insert_of_mem hopen) (fileHeader res)
      refine ⟨.fopen filepath (Worker.freeFd w.fds) :: quiet, calls, ?_, ?_⟩
      · rw [hlog]
        exact List.append_assoc _ _ _
      · exact List.forall_mem_cons.mpr ⟨rfl, hquiet⟩
    dsimp only at hok
    split at hok
    · cases hok
      exact (hsend.sends (OnlySends.fileData conn _ _)).fclose _
    · cases hok
      exact (hsend.sends (OnlySends.errorResponse conn 404 _ _)).close

theorem getRequest_begins (hopen : conn ∈ w.fds)
    (hok : handleGetRequest conn req homeDir disk w = .ok (req', w')) :
    ∃ header, getHeader req homeDir disk = some header ∧ Begins w (w.sendCall conn header) w' := by
  obtain ⟨path, hpath, rfl, ⟨hreadable, rfl⟩ | ⟨hreadable, hv⟩⟩ := handleGetRequest_cases hok
  · rw [getHeader, hpath, Option.bind_some]
    exact ⟨_, if_neg hreadable, (begins_errorResponse hopen 404 _).close⟩
  · rw [getHeader, hpath, Option.bind_some, if_pos hreadable]
    exact staticFile_begins hopen hv

/-- An answer begins with its header, or nothing is sent. -/
theorem handle_begins (hopen : conn ∈ w.fds)
    (hok : handleHttpRequest conn .zeroed text homeDir disk w = .ok (req', w')) :
    ∃ code req, parseHttpRequest text .zeroed = .ok (code, req) ∧
      ((∃ header, answerHeader code req homeDir disk = some header ∧
          Begins w (w.sendCall conn header) w') ∨
        0 ≤ code ∧ (route req = .post ∨ route req = .head) ∧ sentBetween w w' = []) := by
  obtain ⟨code, req, hparse, ⟨hcode, -, rfl⟩ | ⟨hcode, v, hanswer, hok⟩⟩ :=
    handleHttpRequest_cases hok
  · exact ⟨code, req, hparse, .inl ⟨_, if_pos hcode, (begins_errorResponse hopen 400 _).close⟩⟩
  · refine ⟨code, req, hparse, ?_⟩
    have hw' : w' = v ∨ w' = v.close conn := by
      rw [hok]
      split
      · exact .inr rfl
      · exact .inl rfl
    have hmore : v.log <+: w'.log := by
      rcases hw' with rfl | rfl
      · exact List.prefix_rfl
      · exact List.prefix_append _ _
    have hsilent : v = w → sentBetween w w' = [] := by
      rintro rfl
      rcases hw' with rfl | rfl
      · simp [sentBetween]
      · simp [sentBetween, Worker.close, Worker.record, Call.isSend]
    have hparsed : ¬ code < 0 := not_lt.mpr hcode
    rcases answer_cases hanswer with ⟨hroute, hget⟩ | ⟨hroute, -, hsame⟩ | ⟨hroute, -, rfl⟩
    · obtain ⟨header, hheader, hbegins⟩ := getRequest_begins hopen hget
      exact .inl ⟨header, by simp only [answerHeader, if_neg hparsed, hroute, hheader],
        hbegins.later hmore⟩
    · exact .inr ⟨hcode, hroute, hsilent hsame⟩
    · exact .inl ⟨_, by simp only [answerHeader, if_neg hparsed, hroute],
        (begins_errorResponse hopen 501 _).later hmore⟩

theorem notMem_message : 13 ∉ ascii "Bad Request" ∧ 13 ∉ ascii "Not Found" ∧
    13 ∉ ascii "Not Implemented" ∧ 13 ∉ ascii "OK" := by decide

theorem getHeader_cases {header : Bytes} (h : getHeader req homeDir disk = some header) :
    (header = errorHeader 404 (ascii "Not Found") ∧ ∀ w, ¬ FindsFile homeDir disk req w) ∨
      ∃ home dot file, header = fileHeader (fileResponse req home dot file) ∧
        ∀ w : Worker, w.sends.head? ≠ some none → FindsFile homeDir disk req w := by
  obtain ⟨path, hpath, h⟩ := Option.bind_eq_some_iff.mp h
  have found : ∀ {w}, FindsFile homeDir disk req w → disk.readable (homeDir ++ path.bytes) ∧
      (disk.fopen (homeDir ++ path.bytes)).isSome := by
    rintro w ⟨path', hpath', hreadable, hfile⟩
    rw [hpath] at hpath'
    cases hpath'
    exact ⟨hreadable, hfile.opens⟩
  split at h
  · next hreadable =>
    unfold staticHeader at h
    split at h
    · next hnone =>
      cases h
      refine .inl ⟨rfl, fun w hfinds => ?_⟩
      have hopens := (found hfinds).2
      rw [hnone] at hopens
      cases hopens
    · next file hfile =>
      obtain ⟨dot, hdot, rfl⟩ := Option.map_eq_some_iff.mp h
      refine .inr ⟨_, dot, file, rfl, fun w hsends => ⟨path, hpath, hreadable, ?_, ?_, hsends⟩⟩
      · rw [hfile]
        rfl
      · exact suffix_mem hdot
  · next hreadable =>
    cases h
    exact .inl ⟨rfl, fun w hfinds => hreadable (found hfinds).1⟩

/-- The header of an answer names keep-alive exactly when a file is sent for a request that
asks for it. -/
theorem keepAlive_mem_answerHeader_iff {code : Int} {header : Bytes}
    (h : answerHeader code req homeDir disk = some header) (hsends : w.sends.head? ≠ some none)
    (body : Bytes) : keepAliveLine ∈ headLines (header ++ body) ↔
      0 ≤ code ∧ route req = .get ∧ FindsFile homeDir disk req w ∧
        shouldCloseConnection req = false := by
  obtain ⟨hbad, hfound, himplemented, hok⟩ := notMem_message
  unfold answerHeader at h
  split at h
  · next hcode =>
    cases h
    have hno := keepAlive_notMem_errorHeader 400 hbad body
    exact iff_of_false hno fun hyes => absurd hyes.1 (not_le.mpr hcode)
  · next hcode =>
    split at h
    · next hroute =>
      rcases getHeader_cases h with ⟨rfl, hno⟩ | ⟨home, dot, file, rfl, hfinds⟩
      · exact iff_of_false (keepAlive_notMem_errorHeader 404 hfound body) fun hyes => hno w hyes.2.2.1
      · have hmessage : 13 ∉ ((fileResponse req home dot file).statusMessage).getD [] := hok
        have htype : 13 ∉ ((fileResponse req home dot file).contentType).getD [] := notMem_mimeType _
        rw [keepAlive_mem_fileHeader_iff hmessage htype]
        simp [fileResponse, hroute, hfinds w hsends, not_lt.mp hcode]
    · cases h
    · cases h
    · next hroute =>
      cases h
      refine iff_of_false (keepAlive_notMem_errorHeader 501 himplemented body) fun hyes => ?_
      cases hroute.symm.trans hyes.2.1

end Answers

def Call.accepted : Call → Bytes
  | .send _ (some bytes) => bytes
  | .send _ none | .setTimeout _ _ | .recv _ | .fopen _ _ | .fclose _ | .close _ => []

/-- The bytes sent from `w` to `w'`. -/
def responseBytes (w w' : Worker) : Bytes := (sentBetween w w').flatMap Call.accepted

/-- The sends of the answer are those on a socket that takes everything. -/
def SendsSucceed (conn : Int) (homeDir : Bytes) (disk : Disk) (text : Bytes) (w : Worker) : Prop :=
  (handleHttpRequest conn .zeroed text homeDir disk w).map (fun result => sentBetween w result.2) =
    (handleHttpRequest conn .zeroed text homeDir disk { w with sends := [] }).map
      fun result => sentBetween w result.2

/-- The method of a well-formed request is none of those known, and it asks for keep-alive. -/
def RejectedKeptOpen (text : Bytes) : Prop :=
  ∃ code req, parseHttpRequest text .zeroed = .ok (code, req) ∧ 0 ≤ code ∧
    route req = .notImplemented ∧ shouldCloseConnection req = false

/-- From round `x` the loop goes on to read from the connection, which is still open. -/
def GoesOn (conn : Int) (homeDir : Bytes) (disk : Disk) (x : Peer Byte × Worker) : Prop :=
  ∃ y, NextRound .blocking conn homeDir disk x y ∧ conn ∈ y.2.fds

section Truth
variable {conn : Int} {homeDir text : Bytes} {disk : Disk} {x : Peer Byte × Worker}
  {req : HttpRequest} {w w' : Worker}

theorem goesOn_iff (hhandles : Handles .blocking conn x text w)
    (hok : handleHttpRequest conn .zeroed text homeDir disk w = .ok (req, w')) :
    GoesOn conn homeDir disk x ↔ LeavesOpen homeDir disk text w := by
  have hopen := hhandles.opened
  constructor
  · rintro ⟨y, hnext, hy⟩
    by_contra hnot
    have hclosed := (handleHttpRequest_closes hnot hopen hok).fds
    cases hhandles with
    | intro recv type =>
      obtain ⟨req', v, hv, -, rfl⟩ := hnext.of_http recv type
      rw [hok] at hv
      cases hv
      exact hclosed hy
  · intro hleaves
    obtain ⟨req', v, hv, hkeep, hkeeps⟩ := handleHttpRequest_keeps hleaves hopen
    cases hhandles with
    | intro recv type => exact ⟨_, .http recv type hv hkeep, hkeeps.fds hopen⟩

/-- A session that goes on is back in the loop, with the connection open. -/
theorem GoesOn.session {p : Peer Byte} {v : Worker} (h : GoesOn conn homeDir disk (p, v))
    (hhandles : Handles .blocking conn (p, v) text w)
    (hok : handleHttpRequest conn .zeroed text homeDir disk w = .ok (req, w'))
    (served : List HttpRequest) : conn ∈ w'.fds ∧ ∃ p',
      serveRequests .blocking conn homeDir disk p v served =
        serveRequests .blocking conn homeDir disk p' (w'.record (.setTimeout conn 5))
          (served ++ [req]) := by
  obtain ⟨y, hnext, hy⟩ := h
  cases hhandles with
  | @intro _ _ r p' recv type =>
    obtain ⟨req', v', hv, hkeep, rfl⟩ := hnext.of_http recv type
    rw [hok] at hv
    cases hv
    refine ⟨hy, p', ?_⟩
    rw [serveRequests_http recv type.ne_nil type, hok]
    simp only [Bind.bind, Except.bind, hkeep, Bool.false_eq_true, if_false]

theorem session_of_not_goesOn {p : Peer Byte} {v : Worker} (h : ¬ GoesOn conn homeDir disk (p, v))
    (hhandles : Handles .blocking conn (p, v) text w)
    (hok : handleHttpRequest conn .zeroed text homeDir disk w = .ok (req, w'))
    (served : List HttpRequest) : ∃ u, let p' := (receive .blocking conn p v).2
      serveRequests .blocking conn homeDir disk p v served = .ok ⟨p', u, served ++ [req]⟩ ∧
        conn ∉ u.fds ∧ sentBetween w' u = [] := by
  cases hhandles with
  | @intro _ _ r p' recv type =>
    cases hclose : shouldCloseConnection req with
    | true =>
      refine ⟨w'.close conn, ?_, Finset.notMem_erase conn w'.fds, ?_⟩
      · rw [recv, serveRequests_http recv type.ne_nil type, hok]
        simp only [Bind.bind, Except.bind, hclose, if_true]
      · simp [sentBetween, Worker.close, Worker.record, Call.isSend]
    | false =>
      have hgone : conn ∉ (w'.record (.setTimeout conn 5)).fds := fun hopen =>
        h ⟨_, .http recv type hok hclose, hopen⟩
      refine ⟨((w'.record (.setTimeout conn 5)).record (.recv conn)).close conn, ?_,
        Finset.notMem_erase conn w'.fds, ?_⟩
      · rw [recv, serveRequests_http recv type.ne_nil type, hok]
        simp only [Bind.bind, Except.bind, hclose, Bool.false_eq_true, if_false]
        exact serveRequests_none (receive_eq_none hgone)
      · simp [sentBetween, Worker.close, Worker.record, Call.isSend]

theorem begins_whole {code : Int} {v : Worker} {header : Bytes} (hopen : conn ∈ v.fds)
    (htakes : v.sends = []) (hparse : parseHttpRequest text .zeroed = .ok (code, req))
    (hheader : answerHeader code req homeDir disk = some header) {req' : HttpRequest}
    (hok : handleHttpRequest conn .zeroed text homeDir disk v = .ok (req', w'))
    (hanswered : sentBetween v w' ≠ []) :
    ∃ rest, sentBetween v w' = .send conn (some header) :: rest := by
  obtain ⟨code', parsed, hparse', hfirst⟩ := handle_begins hopen hok
  rw [hparse] at hparse'
  cases hparse'
  rcases hfirst with ⟨header', hheader', hbegins⟩ | ⟨-, -, hsilent⟩
  · rw [hheader] at hheader'
    cases hheader'
    have hcall : v.sendCall conn header = .send conn (some header) := by
      rw [Worker.sendCall, htakes]
    rw [hcall] at hbegins
    exact hbegins.sentBetween_eq rfl
  · exact absurd hsilent hanswered

theorem accepts_of_whole {header : Bytes} (h : w.sendCall conn header = .send conn (some header)) :
    w.sends.head? ≠ some none := by
  intro hfails
  unfold Worker.sendCall at h
  cases hw : w.sends with
  | nil => simp [hw] at hfails
  | cons outcome rest =>
    rw [hw] at hfails h
    cases hfails
    cases h

theorem route_of_answerHeader {code : Int} {header : Bytes}
    (h : answerHeader code req homeDir disk = some header) :
    code < 0 ∨ route req = .get ∨ route req = .notImplemented := by
  unfold answerHeader at h
  split at h
  · next hcode => exact .inl hcode
  · split at h
    · next hroute => exact .inr (.inl hroute)
    · cases h
    · cases h
    · next hroute => exact .inr (.inr hroute)

/-- When its sends succeed, an answer carries keep-alive exactly if it sends a file for a
request that asks for it. -/
theorem carries_iff (hopen : conn ∈ w.fds)
    (hok : handleHttpRequest conn .zeroed text homeDir disk w = .ok (req, w'))
    (hsends : SendsSucceed conn homeDir disk text w) (hanswered : sentBetween w w' ≠ []) :
    ∃ code req, parseHttpRequest text .zeroed = .ok (code, req) ∧
      (code < 0 ∨ route req = .get ∨ route req = .notImplemented) ∧
      (keepAliveLine ∈ headLines (responseBytes w w') ↔
        0 ≤ code ∧ route req = .get ∧ FindsFile homeDir disk req w ∧
          shouldCloseConnection req = false) := by
  obtain ⟨code, req, hparse, hfirst⟩ := handle_begins hopen hok
  obtain ⟨header, hheader, hbegins⟩ := hfirst.resolve_right fun hsilent => hanswered hsilent.2.2
  obtain ⟨rest, hrest⟩ := hbegins.sentBetween_eq (isSend_sendCall w conn header)
  rw [SendsSucceed, hok] at hsends
  obtain ⟨⟨req', v'⟩, hv, hsame⟩ := map_eq_ok.mp hsends.symm
  have hsame' : sentBetween { w with sends := [] } v' = sentBetween w w' := hsame
  obtain ⟨rest', hrest'⟩ := begins_whole (v := { w with sends := [] }) hopen rfl hparse hheader hv
    (hsame' ▸ hanswered)
  rw [hsame', hrest] at hrest'
  have hwhole := (List.cons.inj hrest').1
  have hbytes : responseBytes w w' = header ++ rest.flatMap Call.accepted := by
    rw [responseBytes, hrest, hwhole, List.flatMap_cons, Call.accepted]
  refine ⟨code, req, hparse, route_of_answerHeader hheader, ?_⟩
  rw [hbytes]
  exact keepAlive_mem_answerHeader_iff hheader (accepts_of_whole hwhole) _

theorem leavesOpen_iff {code : Int} (hparse : parseHttpRequest text .zeroed = .ok (code, req)) :
    LeavesOpen homeDir disk text w ↔ 0 ≤ code ∧ shouldCloseConnection req = false ∧
      (route req = .get → FindsFile homeDir disk req w) := by
  simp [LeavesOpen, hparse]

theorem rejectedKeptOpen_iff {code : Int}
    (hparse : parseHttpRequest text .zeroed = .ok (code, req)) : RejectedKeptOpen text ↔
      0 ≤ code ∧ route req = .notImplemented ∧ shouldCloseConnection req = false := by
  simp [RejectedKeptOpen, hparse]

/-- When a request is answered and the sends succeed, the server goes on to read from the open
connection exactly if the response carried keep-alive, unless the answer is a 501 to a
request that asks for keep-alive. -/
theorem connection_header_true_iff (hhandles : Handles .blocking conn x text w)
    (hok : handleHttpRequest conn .zeroed text homeDir disk w = .ok (req, w'))
    (hsends : SendsSucceed conn homeDir disk text w) (hanswered : sentBetween w w' ≠ []) :
    (GoesOn conn homeDir disk x ↔ keepAliveLine ∈ headLines (responseBytes w w')) ↔
      ¬ RejectedKeptOpen text := by
  obtain ⟨code, parsed, hparse, hroute, hcarries⟩ :=
    carries_iff hhandles.opened hok hsends hanswered
  rw [goesOn_iff hhandles hok, hcarries, leavesOpen_iff hparse, rejectedKeptOpen_iff hparse]
  rcases hroute with hcode | hget | hrejected
  · simp [not_le.mpr hcode]
  · simp [hget]
    tauto
  · simp [hrejected]

end Truth

/-- A missing file: the response says close, and the connection is closed. -/
theorem connection_header_true_missing :
    let text := ascii "GET /a HTTP/1.1\r\nConnection: keep-alive\r\n\r\n"
    let w : Worker := { fds := {5} }
    ∃ req w', handleHttpRequest 5 .zeroed (text ++ [0]) [] ⟨fun _ => false, fun _ => none⟩
        (w.record (.recv 5)) = .ok (req, w') ∧
      (GoesOn 5 [] ⟨fun _ => false, fun _ => none⟩ (⟨[.data text], .close⟩, w) ↔
        keepAliveLine ∈ headLines (responseBytes (w.record (.recv 5)) w')) := by
  generalize htext : ascii "GET /a HTTP/1.1\r\nConnection: keep-alive\r\n\r\n" = text
  intro text' w
  have hhandles : Handles .blocking 5 (⟨[.data text], .close⟩, w) (text ++ [0])
      (w.record (.recv 5)) := by
    subst htext
    exact handles_of_receive (by decide +kernel) (by decide +kernel)
  have hrun : (handleHttpRequest 5 .zeroed (text ++ [0]) [] ⟨fun _ => false, fun _ => none⟩
      (w.record (.recv 5))).map (fun result =>
        decide (sentBetween (w.record (.recv 5)) result.2 ≠ [])) = .ok true := by
    subst htext
    decide +kernel
  have hparse : (parseHttpRequest (text ++ [0]) .zeroed).map (fun result => route result.2) =
      .ok .get := by
    subst htext
    decide +kernel
  obtain ⟨⟨req, w'⟩, hok, hanswered⟩ := map_eq_ok.mp hrun
  obtain ⟨⟨code, parsed⟩, hparsed, hroute⟩ := map_eq_ok.mp hparse
  have htrue := connection_header_true_iff hhandles hok rfl (of_decide_eq_true hanswered)
  refine ⟨req, w', hok, htrue.mpr ?_⟩
  rw [rejectedKeptOpen_iff hparsed]
  rintro ⟨-, hrejected, -⟩
  cases hroute.symm.trans hrejected

/-- A 501 says close, but the connection stays open and the server goes on to read. -/
theorem rejected_request_kept_open : ¬ ∀ conn homeDir disk x text w req w',
    Handles .blocking conn x text w →
    handleHttpRequest conn .zeroed text homeDir disk w = .ok (req, w') →
    SendsSucceed conn homeDir disk text w → sentBetween w w' ≠ [] →
    (GoesOn conn homeDir disk x ↔ keepAliveLine ∈ headLines (responseBytes w w')) := by
  intro h
  generalize htext : ascii "PUT /a HTTP/1.1\r\nConnection: keep-alive\r\n\r\n" = text at h
  let w : Worker := { fds := {5} }
  have hhandles : Handles .blocking 5 (⟨[.data text], .close⟩, w) (text ++ [0])
      (w.record (.recv 5)) := by
    subst htext
    exact handles_of_receive (by decide +kernel) (by decide +kernel)
  have hrun : (handleHttpRequest 5 .zeroed (text ++ [0]) [] ⟨fun _ => false, fun _ => none⟩
      (w.record (.recv 5))).map (fun result =>
        decide (sentBetween (w.record (.recv 5)) result.2 ≠ [])) = .ok true := by
    subst htext
    decide +kernel
  have hparse : (parseHttpRequest (text ++ [0]) .zeroed).map (fun result =>
      (decide (0 ≤ result.1), route result.2, shouldCloseConnection result.2)) =
      .ok (true, .notImplemented, false) := by
    subst htext
    decide +kernel
  obtain ⟨⟨req, w'⟩, hok, hanswered⟩ := map_eq_ok.mp hrun
  obtain ⟨⟨code, parsed⟩, hparsed, heq⟩ := map_eq_ok.mp hparse
  simp only [Prod.mk.injEq, decide_eq_true_eq] at heq
  obtain ⟨hcode, hroute, hkeep⟩ := heq
  have hne := of_decide_eq_true hanswered
  have hgoes : GoesOn 5 [] ⟨fun _ => false, fun _ => none⟩ (⟨[.data text], .close⟩, w) := by
    rw [goesOn_iff hhandles hok, leavesOpen_iff hparsed]
    exact ⟨hcode, hkeep, fun hget => by cases hroute.symm.trans hget⟩
  obtain ⟨code', parsed', hparsed', -, hcarries⟩ := carries_iff hhandles.opened hok rfl hne
  rw [hparsed] at hparsed'
  cases hparsed'
  have hsays := (h _ _ _ _ _ _ _ _ hhandles hok rfl hne).mp hgoes
  cases hroute.symm.trans (hcarries.mp hsays).2.1

end MinhServer
