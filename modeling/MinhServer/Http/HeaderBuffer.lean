import MinhServer.Http.Reply

namespace MinhServer
open CString

/-- What `send` reads from a buffer of `size` bytes into which `text` was formatted. -/
def formatted (size : Nat) (text : Bytes) : Except Fault Bytes :=
  if text.length < size then .ok text
  -- the last byte was cut off
  else if text.length = size then .ok (text.take (size - 1) ++ [0])
  else .error .overflow

theorem formatted_eq_self {size : Nat} {text : Bytes} (h : text.length < size) :
    formatted size text = .ok text := if_pos h

theorem length_printInt_le {n : Int} {k : Nat} (hk : 0 < k) (h : n.natAbs < 10 ^ k) :
    (printInt n).length ≤ k + 1 := by
  cases n with
  | ofNat m =>
    have hdigits : (ascii m.repr).length ≤ k := length_repr_le hk h
    exact hdigits.trans (Nat.le_succ k)
  | negSucc m =>
    have hneg : toString (Int.negSucc m) = "-" ++ (m + 1).repr := rfl
    have hdigits : (ascii (m + 1).repr).length ≤ k := length_repr_le hk h
    rw [printInt, hneg, ascii, String.toList_append, List.map_append, List.length_append]
    change 1 + (ascii (m + 1).repr).length ≤ k + 1
    omega

theorem length_ascii_le {cs : List Char} {n : Nat} (h : cs.length ≤ n) :
    (ascii (String.ofList cs)).length ≤ n := by
  rwa [ascii, String.toList_ofList, List.length_map]

-- row by row, as for the names themselves
theorem length_sMime_le : ∀ row ∈ sMime, (ascii row.2).length ≤ 100 := by
  unfold sMime
  repeat refine List.forall_mem_cons.mpr ⟨length_ascii_le (Nat.le_of_ble_eq_true rfl), ?_⟩
  exact List.forall_mem_nil _

theorem length_mimeType_le (suffix : Bytes) : (mimeType suffix).length ≤ 100 := by
  unfold mimeType
  split
  · next row hrow => exact length_sMime_le row (List.mem_of_find?_eq_some hrow)
  · exact Nat.zero_le _

theorem length_fileHeader_lt (req : HttpRequest) (filepath : Bytes) (dot : Nat) (file : OpenFile) :
    (fileHeader (fileResponse req filepath dot file)).length < 512 := by
  have htype := length_mimeType_le (filepath.drop dot)
  have hfields : (fileResponse req filepath dot file).statusCode = 200 ∧
      (fileResponse req filepath dot file).statusMessage.getD [] = ascii "OK" ∧
      (fileResponse req filepath dot file).contentType.getD [] = mimeType (filepath.drop dot) :=
    ⟨rfl, rfl, rfl⟩
  generalize fileResponse req filepath dot file = res at hfields ⊢
  obtain ⟨hcode, hmessage, hcontent⟩ := hfields
  have hlow := Int.le_bmod (x := (res.contentLength : Int)) (m := 2 ^ 64) (by decide)
  have hhigh := Int.bmod_lt (x := (res.contentLength : Int)) (m := 2 ^ 64) (by decide)
  have hlong : ((res.contentLength : Int).bmod (2 ^ 64)).natAbs < 10 ^ 19 := by omega
  have hlength := length_printInt_le (by decide) hlong
  have hkeep : (if res.keepAlive then ascii "keep-alive" else ascii "close").length ≤ 10 := by
    cases res.keepAlive <;> decide
  have hparts : (ascii "HTTP/1.1 ").length = 9 ∧ (printInt 200).length = 3 ∧
      (ascii " ").length = 1 ∧ (ascii "OK").length = 2 ∧
      (ascii "Server: minhServer\r\n").length = 20 ∧ (ascii "Content-Type: ").length = 14 ∧
      (ascii "Content-Length: ").length = 16 ∧ (ascii "Connection: ").length = 12 ∧
      crlf.length = 2 := by decide +kernel
  simp only [fileHeader, hcode, hmessage, hcontent, List.length_append]
  omega

theorem length_errorHeader_lt :
    (errorHeader 400 (ascii "Bad Request")).length < 512 ∧
      (errorHeader 404 (ascii "Not Found")).length < 512 ∧
      (errorHeader 501 (ascii "Not Implemented")).length < 512 := by
  decide +kernel

theorem length_answerHeader_lt {code : Int} {req : HttpRequest} {homeDir header : Bytes}
    {disk : Disk} (h : answerHeader code req homeDir disk = some header) : header.length < 512 := by
  obtain ⟨hbad, hfound, himplemented⟩ := length_errorHeader_lt
  unfold answerHeader at h
  split at h
  · cases h
    exact hbad
  · split at h
    · rcases getHeader_cases h with ⟨rfl, -⟩ | ⟨home, dot, file, rfl, -⟩
      · exact hfound
      · exact length_fileHeader_lt req home dot file
    · cases h
    · cases h
    · cases h
      exact himplemented

/-- `sendStaticFile` gets as far as its own header. -/
def opensFile (req : HttpRequest) (homeDir : Bytes) (disk : Disk) : Bool :=
  match requestPath req.path with
  | none => false
  | some path => disk.readable (homeDir ++ path.bytes) && (disk.fopen (homeDir ++ path.bytes)).isSome

/-- The array that the header of the answer is formatted into: `char headers[512]` of
`sendStaticFile`, or `char header_buffer[4096]` of `sendErrorResponse`. -/
def headerBufferSize (code : Int) (req : HttpRequest) (homeDir : Bytes) (disk : Disk) : Nat :=
  if 0 ≤ code ∧ route req = .get ∧ opensFile req homeDir disk = true then 512 else 4096

/-- Whatever is asked for and whatever the disk holds, the header of the answer fits its buffer:
what is sent is the header. -/
theorem answerHeader_formatted {code : Int} {req : HttpRequest} {homeDir header : Bytes}
    {disk : Disk} (h : answerHeader code req homeDir disk = some header) :
    formatted (headerBufferSize code req homeDir disk) header = .ok header := by
  have hlength := length_answerHeader_lt h
  apply formatted_eq_self
  unfold headerBufferSize
  split_ifs
  · exact hlength
  · omega

/-- For a file whose size `ftell` cannot say, and for the same file when it cannot be opened. -/
theorem answerHeader_formatted_file : ∃ header header' : Bytes,
    header.length = 103 ∧ formatted 512 header = .ok header ∧
      header'.length = 110 ∧ formatted 4096 header' = .ok header' := by
  let req : HttpRequest := { HttpRequest.zeroed with
    method := ⟨ascii "GET", by decide, by decide⟩
    path := ⟨ascii "/a.html", by decide, by decide⟩ }
  let disk : Disk := ⟨fun _ => true, fun _ => some ⟨-1, []⟩⟩
  let missing : Disk := ⟨fun _ => true, fun _ => none⟩
  have hlengths : (answerHeader 0 req (ascii "./www") disk).map List.length = some 103 ∧
      (answerHeader 0 req (ascii "./www") missing).map List.length = some 110 := by
    decide +kernel
  have hsizes : headerBufferSize 0 req (ascii "./www") disk = 512 ∧
      headerBufferSize 0 req (ascii "./www") missing = 4096 := by
    decide +kernel
  obtain ⟨header, hheader, hlength⟩ := Option.map_eq_some_iff.mp hlengths.1
  obtain ⟨header', hheader', hlength'⟩ := Option.map_eq_some_iff.mp hlengths.2
  refine ⟨header, header', hlength, ?_, hlength', ?_⟩
  · exact hsizes.1 ▸ answerHeader_formatted hheader
  · exact hsizes.2 ▸ answerHeader_formatted hheader'

/-- The header of `sendHttpResponse`. -/
def responseHeader (resp : HttpResponse) (statusMessage contentType : Bytes) : Bytes :=
  ascii "HTTP/1.1 " ++ printInt resp.statusCode ++ ascii " " ++ statusMessage ++ crlf ++
  ascii "Server: minhServer\r\n" ++
  ascii "Content-Type: " ++ contentType ++ crlf ++
  ascii "Content-Length: " ++ printInt resp.contentLength ++ crlf ++
  ascii "Connection: " ++ (if resp.keepAlive then ascii "keep-alive" else ascii "close") ++ crlf ++
  crlf

/-- The body, of which `content_length` bytes are sent. -/
def sendBody (conn : Int) (resp : HttpResponse) (w : Worker) : Except Fault Worker :=
  match resp.body with
  | none => .ok w
  | some body =>
    if resp.contentLength = 0 then .ok w
    -- reads past the body
    else if body.length < resp.contentLength then .error .overflow
    else .ok (w.send conn (body.take resp.contentLength)).2

def sendHttpResponse (conn : Int) (resp : HttpResponse) (w : Worker) : Except Fault Worker :=
  match resp.statusMessage, resp.contentType with
  | some statusMessage, some contentType => do
    let header ← formatted 4096 (responseHeader resp statusMessage contentType)
    let (sent, w) := w.send conn header
    if sent then sendBody conn resp w else .ok w
  -- `%s` with a null pointer
  | _, _ => .error .badPointer

/-- The responses `resps`, sent one after the other. -/
def sendResponses (conn : Int) : List HttpResponse → Worker → Except Fault Worker
  | [], w => .ok w
  | resp :: resps, w => do
    let w ← sendHttpResponse conn resp w
    sendResponses conn resps w

end MinhServer
