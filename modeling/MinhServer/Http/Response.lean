import MinhServer.Http.Mime
import MinhServer.Worker

namespace MinhServer
open CString

/-- `%d` and `%ld`. -/
def printInt (n : Int) : Bytes := ascii (toString n)

/-- `shouldCloseConnection(req) < 0`: the first slot whose name begins with `Connection`
decides, and without one that says keep-alive the connection is closed. -/
def shouldCloseConnection (req : HttpRequest) : Bool :=
  match (List.ofFn req.h).find? fun h => eqNoCase h.key.bytes (ascii "Connection") 10 with
  | some h =>
    if eqNoCase h.value.bytes (ascii "close") 5 then true
    else !eqNoCase h.value.bytes (ascii "keep-alive") 10
  | none => true

def errorHeader (statusCode : Int) (statusMessage : Bytes) : Bytes :=
  ascii "HTTP/1.1 " ++ printInt statusCode ++ ascii " " ++ statusMessage ++ crlf ++
  ascii "Server: minhServer\r\n" ++
  ascii "Content-Type: text/plain\r\n" ++
  ascii "Content-Length: " ++ printInt statusMessage.length ++ crlf ++
  ascii "Connection: close\r\n" ++ crlf

def sendErrorResponse (conn : Int) (statusCode : Int) (statusMessage : Bytes) (w : Worker) :
    Worker :=
  let (sent, w) := w.send conn (errorHeader statusCode statusMessage)
  if sent then (w.send conn statusMessage).2 else w

def fileHeader (res : HttpResponse) : Bytes :=
  ascii "HTTP/1.1 " ++ printInt res.statusCode ++ ascii " " ++ res.statusMessage.getD [] ++ crlf ++
  ascii "Server: minhServer\r\n" ++
  ascii "Content-Type: " ++ res.contentType.getD [] ++ crlf ++
  ascii "Content-Length: " ++ printInt ((res.contentLength : Int).bmod (2 ^ 64)) ++ crlf ++
  ascii "Connection: " ++ (if res.keepAlive then ascii "keep-alive" else ascii "close") ++ crlf ++
  crlf

/-- The `fread` loop over a buffer of 4096 bytes. -/
def sendFileData (conn : Int) (data : Bytes) (w : Worker) : Worker :=
  if _h : data = [] then w
  else
    let (sent, w) := w.send conn (data.take 4096)
    if sent then sendFileData conn (data.drop 4096) w else w
termination_by data.length
decreasing_by
  have := List.length_pos_iff.mpr _h
  rw [List.length_drop]
  omega

def sendStaticFile (conn : Int) (req : HttpRequest) (filepath : Bytes) (disk : Disk)
    (w : Worker) : Except Fault Worker :=
  match disk.fopen filepath with
  | none => .ok ((sendErrorResponse conn 404 (ascii "Not Found") w).close conn)
  | some file =>
    let (fd, w) := w.fopen filepath
    match strrchr filepath 46 with
    -- the suffix is a null pointer, and `strcmp` reads it
    | none => .error .badPointer
    | some dot =>
      let res : HttpResponse := {
        statusCode := 200
        statusMessage := some (ascii "OK")
        contentLength := (file.size % 2 ^ 64).toNat
        contentType := some (mimeType (filepath.drop dot))
        keepAlive := !shouldCloseConnection req }
      let (sent, w) := { w with res := res }.send conn (fileHeader res)
      if sent then .ok ((sendFileData conn file.data w).fclose fd)
      -- the file stays open
      else .ok ((sendErrorResponse conn 404 (ascii "Not Found") w).close conn)

/-- `memcpy(req->path + 1, "index.html", 10)` on a path that has a first byte. -/
def indexPath (path : CField 256) : CField 256 where
  bytes := path.bytes.take 1 ++ ascii "index.html" ++ path.bytes.drop 11
  noNul := by
    have htake : 0 ∉ path.bytes.take 1 := fun h => path.noNul (List.mem_of_mem_take h)
    have hdrop : 0 ∉ path.bytes.drop 11 := fun h => path.noNul (List.mem_of_mem_drop h)
    have hindex : 0 ∉ ascii "index.html" := by decide
    simp [htake, hdrop, hindex]
  fits := by
    have := path.fits
    have hindex : (ascii "index.html").length = 10 := rfl
    simp only [List.length_append, List.length_take, List.length_drop, hindex]
    omega

/-- The path a GET request looks up: `index.html` is written over a path that ends in its
last slash. `none` when there is no slash. -/
def requestPath (path : CField 256) : Option (CField 256) :=
  match strrchr path.bytes 47 with
  | none => none
  | some lastPos =>
    if eqNoCase (path.bytes.drop (lastPos + 1)) [] 1 then some (indexPath path) else some path

def handleGetRequest (conn : Int) (req : HttpRequest) (homeDir : Bytes) (disk : Disk)
    (w : Worker) : Except Fault (HttpRequest × Worker) :=
  match requestPath req.path with
  -- one past a null pointer
  | none => .error .badPointer
  | some path => do
    let req := { req with path := path }
    let home := homeDir ++ req.path.bytes
    if disk.readable home then
      let w ← sendStaticFile conn req home disk w
      .ok (req, w)
    else .ok (req, (sendErrorResponse conn 404 (ascii "Not Found") w).close conn)

inductive Route where
  | get
  | post
  | head
  | notImplemented
  deriving DecidableEq, Repr

/-- The method is compared by its first letters only. -/
def route (req : HttpRequest) : Route :=
  if eqNoCase req.method.bytes (ascii "GET") 3 then .get
  else if eqNoCase req.method.bytes (ascii "POST") 4 then .post
  else if eqNoCase req.method.bytes (ascii "HEAD") 4 then .head
  else .notImplemented

/-- The four answers; `handlePostRequest` and `handleHeadRequest` are empty. -/
def answer (conn : Int) (req : HttpRequest) (homeDir : Bytes) (disk : Disk) (w : Worker) :
    Except Fault (HttpRequest × Worker) :=
  match route req with
  | .get => handleGetRequest conn req homeDir disk w
  | .post => .ok (req, w)
  | .head => .ok (req, w)
  | .notImplemented => .ok (req, sendErrorResponse conn 501 (ascii "Not Implemented") w)

def handleHttpRequest (conn : Int) (req : HttpRequest) (request homeDir : Bytes) (disk : Disk)
    (w : Worker) : Except Fault (HttpRequest × Worker) := do
  let (code, req) ← parseHttpRequest request req
  if code < 0 then .ok (req, (sendErrorResponse conn 400 (ascii "Bad Request") w).close conn)
  else do
    let (req, w) ← answer conn req homeDir disk w
    .ok (req, if shouldCloseConnection req then w.close conn else w)

/-- From `w` to `w'` there were `send` calls on `conn` and nothing else. -/
structure OnlySends (conn : Int) (w w' : Worker) : Prop where
  fds : w'.fds = w.fds
  res : w'.res = w.res
  log : ∃ calls, w'.log = w.log ++ calls ∧ ∀ c ∈ calls, ∃ accepted, c = .send conn accepted

namespace OnlySends
variable {conn : Int} {w w' w'' : Worker}

theorem refl (w : Worker) : OnlySends conn w w := ⟨rfl, rfl, [], by simp, by simp⟩

theorem trans (h : OnlySends conn w w') (h' : OnlySends conn w' w'') : OnlySends conn w w'' := by
  obtain ⟨calls, hlog, hcalls⟩ := h.log
  obtain ⟨calls', hlog', hcalls'⟩ := h'.log
  refine ⟨h'.fds.trans h.fds, h'.res.trans h.res, calls ++ calls', ?_, ?_⟩
  · rw [hlog', hlog, List.append_assoc]
  · intro c hc
    exact (List.mem_append.mp hc).elim (hcalls c) (hcalls' c)

theorem record (w : Worker) (sends : List (Option Nat)) (accepted : Option Bytes) :
    OnlySends conn w ({ w with sends := sends }.record (.send conn accepted)) :=
  ⟨rfl, rfl, [.send conn accepted], rfl, by simp⟩

theorem send (conn : Int) (w : Worker) (bytes : Bytes) : OnlySends conn w (w.send conn bytes).2 := by
  unfold Worker.send
  split
  · exact record w w.sends none
  · split
    · exact record w w.sends (some bytes)
    · exact record w _ none
    · exact record w _ _

theorem errorResponse (conn statusCode : Int) (statusMessage : Bytes) (w : Worker) :
    OnlySends conn w (sendErrorResponse conn statusCode statusMessage w) := by
  have hheader := send conn w (errorHeader statusCode statusMessage)
  unfold sendErrorResponse
  dsimp only
  split
  · exact hheader.trans (send conn _ statusMessage)
  · exact hheader

theorem fileData (conn : Int) (data : Bytes) (w : Worker) :
    OnlySends conn w (sendFileData conn data w) := by
  induction hn : data.length using Nat.strong_induction_on generalizing data w with
  | _ n ih =>
  rw [sendFileData]
  split
  · exact refl w
  · next hne =>
    have hsend := send conn w (data.take 4096)
    have hlt : (data.drop 4096).length < n := by
      have := List.length_pos_iff.mpr hne
      rw [List.length_drop]
      omega
    dsimp only
    split
    · exact hsend.trans (ih _ hlt _ _ rfl)
    · exact hsend

theorem mem_log (h : OnlySends conn w w') {c : Call} (hc : c ∈ w.log) : c ∈ w'.log := by
  obtain ⟨calls, hlog, -⟩ := h.log
  rw [hlog]
  exact List.mem_append_left _ hc

theorem fopen_mem (h : OnlySends conn w w') {name : Bytes} {fd : Int}
    (hmem : .fopen name fd ∈ w'.log) : .fopen name fd ∈ w.log := by
  obtain ⟨calls, hlog, hcalls⟩ := h.log
  rw [hlog] at hmem
  rcases List.mem_append.mp hmem with hmem | hmem
  · exact hmem
  · obtain ⟨accepted, hsend⟩ := hcalls _ hmem
    cases hsend

end OnlySends

/-- The worker after `fopen` and with the response filled in. -/
def Worker.opened (w : Worker) (name : Bytes) (res : HttpResponse) : Worker :=
  { (w.fopen name).2 with res := res }

/-- What `sendStaticFile` does: an error and a close, or a file is opened, something is sent,
and either the file or the connection is closed. -/
theorem sendStaticFile_cases {conn : Int} {req : HttpRequest} {filepath : Bytes} {disk : Disk}
    {w w' : Worker} (h : sendStaticFile conn req filepath disk w = .ok w') :
    (∃ v, OnlySends conn w v ∧ w' = v.close conn) ∨
      (46 ∈ filepath ∧ ∃ res v, OnlySends conn (w.opened filepath res) v ∧
        (w' = v.fclose (Worker.freeFd w.fds) ∨ w' = v.close conn)) := by
  unfold sendStaticFile at h
  split at h
  · simp only [Except.ok.injEq] at h
    exact .inl ⟨_, OnlySends.errorResponse conn 404 _ w, h.symm⟩
  · dsimp only at h
    split at h
    · cases h
    · next dot hdot =>
      have hmem : 46 ∈ filepath := by
        by_contra hno
        rw [strrchr_eq_none_iff.mpr hno] at hdot
        cases hdot
      refine .inr ⟨hmem, ?_⟩
      split at h
      · simp only [Except.ok.injEq] at h
        exact ⟨_, _, (OnlySends.send conn _ _).trans (OnlySends.fileData conn _ _), .inl h.symm⟩
      · simp only [Except.ok.injEq] at h
        exact ⟨_, _, (OnlySends.send conn _ _).trans (OnlySends.errorResponse conn 404 _ _),
          .inr h.symm⟩

theorem handleGetRequest_path {conn : Int} {req : HttpRequest} {homeDir : Bytes}
    {path : CField 256} (h : requestPath req.path = some path) (disk : Disk) (w : Worker) :
    handleGetRequest conn req homeDir disk w =
      if disk.readable (homeDir ++ path.bytes) then
        (sendStaticFile conn { req with path := path } (homeDir ++ path.bytes) disk w).map
          fun w => ({ req with path := path }, w)
      else .ok ({ req with path := path },
        (sendErrorResponse conn 404 (ascii "Not Found") w).close conn) := by
  unfold handleGetRequest
  rw [h]
  dsimp only
  split
  · rfl
  · rfl

/-- What `handleGetRequest` does with the path it looks up: it answers with an error and closes,
or sends a file that is readable. -/
theorem handleGetRequest_cases {conn : Int} {req req' : HttpRequest} {homeDir : Bytes}
    {disk : Disk} {w w' : Worker}
    (h : handleGetRequest conn req homeDir disk w = .ok (req', w')) :
    ∃ path, requestPath req.path = some path ∧ req' = { req with path := path } ∧
      ((¬ disk.readable (homeDir ++ path.bytes) ∧
          w' = (sendErrorResponse conn 404 (ascii "Not Found") w).close conn) ∨
        (disk.readable (homeDir ++ path.bytes) ∧
          sendStaticFile conn req' (homeDir ++ path.bytes) disk w = .ok w')) := by
  cases hpath : requestPath req.path with
  | none =>
    rw [handleGetRequest, hpath] at h
    cases h
  | some path =>
    rw [handleGetRequest_path hpath] at h
    split at h
    · next hreadable =>
      obtain ⟨v, hv, hok⟩ := map_eq_ok.mp h
      cases hok
      exact ⟨path, rfl, rfl, .inr ⟨hreadable, hv⟩⟩
    · next hreadable =>
      cases h
      exact ⟨path, rfl, rfl, .inl ⟨hreadable, rfl⟩⟩

/-- The four answers, told by the method. -/
theorem answer_cases {conn : Int} {req req' : HttpRequest} {homeDir : Bytes} {disk : Disk}
    {w w' : Worker} (h : answer conn req homeDir disk w = .ok (req', w')) :
    (route req = .get ∧ handleGetRequest conn req homeDir disk w = .ok (req', w')) ∨
      ((route req = .post ∨ route req = .head) ∧ req' = req ∧ w' = w) ∨
      (route req = .notImplemented ∧ req' = req ∧
        w' = sendErrorResponse conn 501 (ascii "Not Implemented") w) := by
  unfold answer at h
  split at h
  · next hroute => exact .inl ⟨hroute, h⟩
  · next hroute =>
    cases h
    exact .inr (.inl ⟨.inl hroute, rfl, rfl⟩)
  · next hroute =>
    cases h
    exact .inr (.inl ⟨.inr hroute, rfl, rfl⟩)
  · next hroute =>
    cases h
    exact .inr (.inr ⟨hroute, rfl, rfl⟩)

/-- A request that is not parsed is answered with an error and a close; any other one is answered
by its method, and the connection is then closed if the request asks for it. -/
theorem handleHttpRequest_cases {conn : Int} {req req' : HttpRequest} {request homeDir : Bytes}
    {disk : Disk} {w w' : Worker}
    (h : handleHttpRequest conn req request homeDir disk w = .ok (req', w')) :
    ∃ code parsed, parseHttpRequest request req = .ok (code, parsed) ∧
      ((code < 0 ∧ req' = parsed ∧
          w' = (sendErrorResponse conn 400 (ascii "Bad Request") w).close conn) ∨
        (0 ≤ code ∧ ∃ v, answer conn parsed homeDir disk w = .ok (req', v) ∧
          w' = if shouldCloseConnection req' then v.close conn else v)) := by
  unfold handleHttpRequest at h
  obtain ⟨⟨code, parsed⟩, hparse, h⟩ := bind_eq_ok.mp h
  refine ⟨code, parsed, hparse, ?_⟩
  dsimp only at h
  split at h
  · next hcode =>
    cases h
    exact .inl ⟨hcode, rfl, rfl⟩
  · next hcode =>
    obtain ⟨⟨answered, v⟩, hanswer, h⟩ := bind_eq_ok.mp h
    cases h
    exact .inr ⟨not_lt.mp hcode, v, hanswer, rfl⟩

/-- Whatever was open stays open, `conn` apart, and the calls made before stay in front. -/
structure ClosesOnly (conn : Int) (w w' : Worker) : Prop where
  fds : ∀ fd ∈ w.fds, fd ≠ conn → fd ∈ w'.fds
  log : w.log <+: w'.log

namespace ClosesOnly
variable {conn : Int} {w w' w'' : Worker}

theorem refl (conn : Int) (w : Worker) : ClosesOnly conn w w :=
  ⟨fun _ hfd _ => hfd, List.prefix_rfl⟩

theorem trans (h : ClosesOnly conn w w') (h' : ClosesOnly conn w' w'') : ClosesOnly conn w w'' :=
  ⟨fun fd hfd hne => h'.fds fd (h.fds fd hfd hne) hne, h.log.trans h'.log⟩

theorem record (c : Call) (w : Worker) : ClosesOnly conn w (w.record c) :=
  ⟨fun _ hfd _ => hfd, List.prefix_append _ _⟩

theorem close (conn : Int) (w : Worker) : ClosesOnly conn w (w.close conn) :=
  ⟨fun _ hfd hne => Finset.mem_erase_of_ne_of_mem hne hfd, List.prefix_append _ _⟩

theorem sends (h : OnlySends conn w w') : ClosesOnly conn w w' := by
  obtain ⟨calls, hlog, -⟩ := h.log
  refine ⟨fun fd hfd _ => ?_, hlog ▸ List.prefix_append _ _⟩
  rw [h.fds]
  exact hfd

/-- The file that is closed was not open before. -/
theorem staticFile {req : HttpRequest} {filepath : Bytes} {disk : Disk}
    (h : sendStaticFile conn req filepath disk w = .ok w') : ClosesOnly conn w w' := by
  have hopened : ∀ res, ClosesOnly conn w (w.opened filepath res) := fun _ =>
    ⟨fun _ hfd _ => Finset.mem_insert_of_mem hfd, List.prefix_append _ _⟩
  rcases sendStaticFile_cases h with ⟨v, hv, rfl⟩ | ⟨-, res, v, hv, rfl | rfl⟩
  · exact (sends hv).trans (close conn v)
  · have hsent := (hopened res).trans (sends hv)
    refine ⟨fun fd hfd hconn => ?_, hsent.log.trans (List.prefix_append _ _)⟩
    have hne : fd ≠ Worker.freeFd w.fds := fun heq => Worker.freeFd_notMem w.fds (heq ▸ hfd)
    exact Finset.mem_erase_of_ne_of_mem hne (hsent.fds fd hfd hconn)
  · exact (hopened res).trans ((sends hv).trans (close conn v))

theorem getRequest {req req' : HttpRequest} {homeDir : Bytes} {disk : Disk}
    (h : handleGetRequest conn req homeDir disk w = .ok (req', w')) : ClosesOnly conn w w' := by
  obtain ⟨path, -, -, ⟨-, rfl⟩ | ⟨-, hfile⟩⟩ := handleGetRequest_cases h
  · exact (sends (OnlySends.errorResponse conn 404 _ w)).trans (close conn _)
  · exact staticFile hfile

theorem answer {req req' : HttpRequest} {homeDir : Bytes} {disk : Disk}
    (h : answer conn req homeDir disk w = .ok (req', w')) : ClosesOnly conn w w' := by
  rcases answer_cases h with ⟨-, hget⟩ | ⟨-, -, rfl⟩ | ⟨-, -, rfl⟩
  · exact getRequest hget
  · exact refl conn w'
  · exact sends (OnlySends.errorResponse conn 501 _ w)

theorem httpRequest {req req' : HttpRequest} {request homeDir : Bytes} {disk : Disk}
    (h : handleHttpRequest conn req request homeDir disk w = .ok (req', w')) :
    ClosesOnly conn w w' := by
  obtain ⟨code, parsed, -, ⟨-, -, rfl⟩ | ⟨-, v, hanswer, rfl⟩⟩ := handleHttpRequest_cases h
  · exact (sends (OnlySends.errorResponse conn 400 _ w)).trans (close conn _)
  · have hv := answer hanswer
    split
    · exact hv.trans (close conn v)
    · exact hv

end ClosesOnly

end MinhServer
