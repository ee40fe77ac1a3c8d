import MinhServer.Http.DeclaredLength
import MinhServer.Http.Response

namespace MinhServer
open CString Wire

/-- A method handler is reached, with the request `req`. -/
def ReachesHandler (request : Bytes) (req : HttpRequest) : Prop :=
  ∃ code, parseHttpRequest request .zeroed = .ok (code, req) ∧ ¬ code < 0 ∧
    route req ≠ .notImplemented

def AnsweredBadRequest (request : Bytes) : Prop :=
  ∃ code req, parseHttpRequest request .zeroed = .ok (code, req) ∧ code < 0

theorem handleHttpRequest_of_badRequest {request : Bytes} (h : AnsweredBadRequest request)
    (conn : Int) (homeDir : Bytes) (disk : Disk) (w : Worker) :
    ∃ req, handleHttpRequest conn .zeroed request homeDir disk w =
      .ok (req, (sendErrorResponse conn 400 (ascii "Bad Request") w).close conn) := by
  obtain ⟨code, req, hparse, hcode⟩ := h
  refine ⟨req, ?_⟩
  unfold handleHttpRequest
  rw [hparse]
  exact if_pos hcode

/-- The header lines of the head say `Content-Length: n`. -/
def CarriesLength (bytes : Bytes) (n : Nat) : Prop :=
  ∃ line ∈ (headLines bytes).tail, NamesContentLength line ∧ HasDecimalValue line n

def headBytes (bytes : Bytes) : Bytes :=
  match strstr bytes headEnd with
  | none => []
  | some headerEndPos => bytes.take (headerEndPos + 4)

def bodyBytes (bytes : Bytes) : Bytes :=
  match strstr bytes headEnd with
  | none => []
  | some headerEndPos => bytes.drop (headerEndPos + 4)

/-- No truncated request is dispatched: a handler is reached only with exactly `n` body bytes
and gets them, and any other number of bytes is answered with 400. -/
structure NotTruncated (r : RecvBuffer) (n : Nat) : Prop where
  defined : ∃ result, parseHttpRequest r.memory .zeroed = .ok result
  handler : ∀ req, ReachesHandler r.memory req → (bodyBytes r.bytes).length = n ∧
    (0 < n → req.body = some (bodyBytes r.bytes) ∧ req.bodyLength = n)
  otherwise : (bodyBytes r.bytes).length ≠ n → AnsweredBadRequest r.memory

/-- GET, POST or HEAD, as far as `route` compares. -/
def isSupported (method : Bytes) : Bool :=
  eqNoCase method (ascii "GET") 3 || eqNoCase method (ascii "POST") 4 ||
    eqNoCase method (ascii "HEAD") 4

def storedMethod (bytes : Bytes) : Bytes := requestToken (words ((headLines bytes).headD [])) 0

/-- The parser's own check passes for the text `c`: the first stored header whose name begins
with `Content-Length` reads as its length. -/
def PassesCheck (bytes c : Bytes) : Prop :=
  ∃ field v, contentLengthField (headLines bytes).tail = some field ∧
    strtol field.2 = (v, []) ∧ v % 2 ^ 64 = c.length

/-- The requests on which the check of the declared length works: the head has a NUL, so that
the parser rejects it, or its lines fit, and
an empty body text was meant to be empty or goes to no handler,
and a body text that passes the check is the whole body of `n` bytes or goes to no handler. -/
def LengthEnforced (bytes : Bytes) (n : Nat) : Prop :=
  0 ∈ headBytes bytes ∨
    (HeadFits (headLines bytes) ∧
      (cstr (bodyBytes bytes) = [] → (bodyBytes bytes).length = n ∧
        (n = 0 ∨ isSupported (storedMethod bytes) = false)) ∧
      (cstr (bodyBytes bytes) ≠ [] → PassesCheck bytes (cstr (bodyBytes bytes)) →
        (bodyBytes bytes).length = n ∧
          (cstr (bodyBytes bytes) = bodyBytes bytes ∨ isSupported (storedMethod bytes) = false)))

theorem parse_of_nul {r : RecvBuffer} {e : Nat} (he : strstr r.bytes headEnd = some e)
    (h0 : 0 ∈ headBytes r.bytes) : parseHttpRequest r.memory .zeroed = .ok (-1, .zeroed) := by
  simp only [headBytes, he] at h0
  unfold parseHttpRequest
  simp only [cstr_memory, strstr_cstr_of_nul he h0]

theorem wholeHead_headBytes {bytes : Bytes} {e : Nat} (he : strstr bytes headEnd = some e)
    (h0 : 0 ∉ headBytes bytes) :
    WholeHead (headBytes bytes) ∧ headLines (headBytes bytes) = headLines bytes := by
  have hlen := strstr_end_le (by decide) he
  have hfour : headEnd.length = 4 := rfl
  have htake : strstr (bytes.take (e + 4)) headEnd = some e :=
    strstr_take (by decide) he (by omega)
  simp only [headBytes, he] at h0 ⊢
  refine ⟨⟨h0, ?_⟩, ?_⟩
  · rw [findHttpHeaderEnd_eq, htake, Option.map_some, List.length_take_of_le (by omega)]
  · rw [headLines_of_end htake, headLines_of_end he, List.take_take, Nat.min_eq_left (by omega)]

theorem parse_of_noNul {r : RecvBuffer} {e : Nat} (he : strstr r.bytes headEnd = some e)
    (h0 : 0 ∉ headBytes r.bytes) :
    parseHttpRequest r.memory .zeroed = readLines (headLines r.bytes) >>= fun req =>
      .ok (parseBody (cstr (bodyBytes r.bytes)) req) := by
  obtain ⟨hhead, hlines⟩ := wholeHead_headBytes he h0
  have hsplit : r.bytes = headBytes r.bytes ++ bodyBytes r.bytes := by
    simp only [headBytes, bodyBytes, he, List.take_append_drop]
  have htext : cstr r.memory = headBytes r.bytes ++ cstr (bodyBytes r.bytes) := by
    rw [cstr_memory, ← cstr_append h0, ← hsplit]
  rw [parse_wholeHead hhead htext, hlines]

theorem storedField_of_declares {line : Bytes} {n : Nat} (hname : NamesContentLength line)
    (hvalue : HasDecimalValue line n) :
    ∃ field, storedField line = some field ∧ isContentLength field = true := by
  obtain ⟨-, hsame⟩ := hname
  obtain ⟨ows, digits, ows', hdrop, hows, hne, hdigit, -⟩ := hvalue
  have hsame' : (fieldName line).map tolower = (ascii "Content-Length").map tolower := by
    simpa [sameNoCase] using hsame
  have hnil : fieldName line ≠ [] := by
    intro he
    rw [he] at hsame'
    cases hsame'
  have hword : ∃ w, fieldValue line = some w := by
    unfold fieldValue
    rw [hdrop]
    have hnotblank : (ows ++ digits ++ ows').dropWhile isspace ≠ [] := by
      intro hblank
      obtain ⟨d, ds, rfl⟩ := List.exists_cons_of_ne_nil hne
      have := List.dropWhile_eq_nil_iff.mp hblank d (by simp)
      rw [isspace_of_isdigit (hdigit d (by simp))] at this
      cases this
    rw [words_of_not_blank hnotblank]
    exact ⟨_, rfl⟩
  obtain ⟨w, hw⟩ := hword
  refine ⟨(fieldName line, w), by simp [storedField, hnil, hw], ?_⟩
  unfold isContentLength eqNoCase
  rw [List.map_take, List.map_take, hsame']
  simp

theorem exists_contentLengthField {bytes : Bytes} {n : Nat} (h : CarriesLength bytes n) :
    ∃ field, contentLengthField (headLines bytes).tail = some field := by
  obtain ⟨line, hmem, hname, hvalue⟩ := h
  obtain ⟨field, hfield, his⟩ := storedField_of_declares hname hvalue
  apply Option.isSome_iff_exists.mp
  unfold contentLengthField
  rw [List.find?_isSome]
  exact ⟨field, List.mem_filterMap.mpr ⟨line, hmem, hfield⟩, his⟩

theorem parseBody_empty (req : HttpRequest) : parseBody [] req = (0, req) := rfl

theorem parseBody_of_slot {bytes c : Bytes} {requestLine : Bytes} {req : HttpRequest}
    {field : Bytes × Bytes} (hreq : ParsedHead requestLine (headLines bytes).tail req)
    (hfits : HeadFits (headLines bytes)) (hc : c ≠ [])
    (hfield : contentLengthField (headLines bytes).tail = some field) :
    (PassesCheck bytes c →
      parseBody c req = (0, { req with bodyLength := c.length, body := some c })) ∧
    (¬ PassesCheck bytes c → parseBody c req = (-1, req)) := by
  have hverdict : bodyVerdict (headLines bytes).tail c = some (decide (MeasuresBody field.2 c)) := by
    rw [bodyVerdict, if_neg hc, hfield, Option.map_some]
  have hcheck : PassesCheck bytes c ↔ MeasuresBody field.2 c := by
    unfold PassesCheck MeasuresBody
    simp [hfield, Prod.ext_iff]
  rw [parseBody_eq hreq hfits.headerLine, hverdict, hcheck]
  constructor
  · intro h
    rw [decide_eq_true h]
  · intro h
    rw [decide_eq_false h]

theorem isSupported_iff (req : HttpRequest) :
    isSupported req.method.bytes = true ↔ route req ≠ .notImplemented := by
  unfold isSupported route
  split_ifs <;> simp_all

/-- On a head without a NUL whose lines fit, what the body section returns decides. -/
theorem notTruncated_of_parsed {r : RecvBuffer} {n : Nat} {code : Int} {req : HttpRequest}
    (hparse : parseHttpRequest r.memory .zeroed = .ok (code, req)) :
    NotTruncated r n ↔
      (¬ code < 0 → (bodyBytes r.bytes).length = n ∧ (isSupported req.method.bytes = true →
        0 < n → req.body = some (bodyBytes r.bytes) ∧ req.bodyLength = n)) := by
  have hreach : ∀ req', ReachesHandler r.memory req' ↔
      req' = req ∧ ¬ code < 0 ∧ isSupported req.method.bytes = true := by
    intro req'
    unfold ReachesHandler
    rw [hparse]
    constructor
    · rintro ⟨code', hok, hcode, hroute⟩
      simp only [Except.ok.injEq, Prod.mk.injEq] at hok
      obtain ⟨rfl, rfl⟩ := hok
      exact ⟨rfl, hcode, (isSupported_iff req).mpr hroute⟩
    · rintro ⟨rfl, hcode, hsupported⟩
      exact ⟨code, rfl, hcode, (isSupported_iff req').mp hsupported⟩
  have hbad : AnsweredBadRequest r.memory ↔ code < 0 := by
    unfold AnsweredBadRequest
    rw [hparse]
    simp
  constructor
  · intro h hcode
    have hlen : (bodyBytes r.bytes).length = n := by
      by_contra hne
      exact hcode (hbad.mp (h.otherwise hne))
    exact ⟨hlen, fun hs hn => (h.handler req ((hreach req).mpr ⟨rfl, hcode, hs⟩)).2 hn⟩
  · intro h
    refine ⟨⟨_, hparse⟩, fun req' hreq' => ?_, fun hne => ?_⟩
    · obtain ⟨rfl, hcode, hs⟩ := (hreach req').mp hreq'
      exact ⟨(h hcode).1, (h hcode).2 hs⟩
    · rw [hbad]
      by_contra hcode
      exact hne (h hcode).1

theorem notTruncated_of_rejected {r : RecvBuffer} {n : Nat} {code : Int} {req : HttpRequest}
    (hparse : parseHttpRequest r.memory .zeroed = .ok (code, req)) (hcode : code < 0) :
    NotTruncated r n :=
  (notTruncated_of_parsed hparse).mpr fun h => absurd hcode h

theorem notTruncated_of_noText {r : RecvBuffer} {n : Nat} {req : HttpRequest}
    (hparse : parseHttpRequest r.memory .zeroed = .ok (0, req)) (hbody : req.body = none) :
    NotTruncated r n ↔
      (bodyBytes r.bytes).length = n ∧ (n = 0 ∨ isSupported req.method.bytes = false) := by
  rw [notTruncated_of_parsed hparse, hbody]
  constructor
  · intro h
    obtain ⟨hlen, hgiven⟩ := h (by decide)
    refine ⟨hlen, ?_⟩
    by_contra hno
    simp only [not_or, Bool.not_eq_false] at hno
    cases (hgiven hno.2 (by omega)).1
  · rintro ⟨hlen, hor⟩ -
    refine ⟨hlen, fun hs hn => ?_⟩
    rcases hor with rfl | hor
    · omega
    · rw [hs] at hor
      cases hor

theorem notTruncated_of_text {r : RecvBuffer} {n : Nat} {c : Bytes} {req : HttpRequest}
    (hc : c ≠ []) (htext : cstr (bodyBytes r.bytes) = c)
    (hparse : parseHttpRequest r.memory .zeroed =
      .ok (0, { req with bodyLength := c.length, body := some c })) :
    NotTruncated r n ↔
      (bodyBytes r.bytes).length = n ∧
        (c = bodyBytes r.bytes ∨ isSupported req.method.bytes = false) := by
  rw [notTruncated_of_parsed hparse]
  constructor
  · intro h
    obtain ⟨hlen, hgiven⟩ := h (by decide)
    refine ⟨hlen, ?_⟩
    have hpos : 0 < n := by
      rw [← hlen, List.length_pos_iff]
      intro hnil
      rw [hnil] at htext
      exact hc htext.symm
    by_contra hno
    simp only [not_or, Bool.not_eq_false] at hno
    exact hno.1 (Option.some.inj (hgiven hno.2 hpos).1)
  · rintro ⟨hlen, hor⟩ -
    refine ⟨hlen, fun hs _ => ?_⟩
    rcases hor with hor | hor
    · exact ⟨congrArg some hor, by rw [hor, hlen]⟩
    · rw [hs] at hor
      cases hor

/-- Whatever buffer `recvRequest` returns with a head that declares `n`: a truncated request
is not dispatched exactly when the check of the declared length works on it. -/
theorem not_truncated_iff {r : RecvBuffer} {n : Nat} (hlength : CarriesLength r.bytes n) :
    NotTruncated r n ↔ LengthEnforced r.bytes n := by
  obtain ⟨e, he⟩ : ∃ e, strstr r.bytes headEnd = some e := by
    obtain ⟨line, hmem, -⟩ := hlength
    cases he : strstr r.bytes headEnd with
    | none => simp [headLines, he] at hmem
    | some e => exact ⟨e, rfl⟩
  obtain ⟨field, hfield⟩ := exists_contentLengthField hlength
  unfold LengthEnforced
  by_cases h0 : 0 ∈ headBytes r.bytes
  · exact iff_of_true (notTruncated_of_rejected (parse_of_nul he h0) (by decide)) (.inl h0)
  have hparse := parse_of_noNul he h0
  rw [or_iff_right h0]
  have hlines : ∀ line ∈ headLines r.bytes, 0 ∉ line := by
    obtain ⟨hhead, hlines⟩ := wholeHead_headBytes he h0
    rw [← hlines]
    exact hhead.line_noNul
  cases hread : readLines (headLines r.bytes) with
  | error fault =>
    -- a line does not fit: the parser writes past a field
    have hnot : ¬ HeadFits (headLines r.bytes) := fun hf => by
      obtain ⟨req, hreq⟩ := (readLines_isOk_iff hlines).mpr hf
      rw [hread] at hreq
      cases hreq
    refine iff_of_false (fun h => ?_) fun h => hnot h.1
    obtain ⟨result, hresult⟩ := h.defined
    rw [hparse, hread] at hresult
    cases hresult
  | ok req =>
    have hfits := (readLines_isOk_iff hlines).mp ⟨req, hread⟩
    have hreq := readLines_parsed hread
    have hmethod : req.method.bytes = storedMethod r.bytes := hreq.method
    rw [hread] at hparse
    replace hparse : parseHttpRequest r.memory .zeroed =
      .ok (parseBody (cstr (bodyBytes r.bytes)) req) := hparse
    rw [and_iff_right hfits, ← hmethod]
    by_cases hc : cstr (bodyBytes r.bytes) = []
    · rw [hc, parseBody_empty] at hparse
      rw [notTruncated_of_noText hparse hreq.body]
      exact ⟨fun h => ⟨fun _ => h, fun hne => absurd hc hne⟩, fun h => h.1 hc⟩
    · obtain ⟨hpass, hfail⟩ := parseBody_of_slot hreq hfits hc hfield
      by_cases hcheck : PassesCheck r.bytes (cstr (bodyBytes r.bytes))
      · rw [hpass hcheck] at hparse
        rw [notTruncated_of_text hc rfl hparse]
        exact ⟨fun h => ⟨fun hnil => absurd hnil hc, fun _ _ => h⟩, fun h => h.2 hc hcheck⟩
      · rw [hfail hcheck] at hparse
        exact iff_of_true (notTruncated_of_rejected hparse (by decide))
          ⟨fun h => absurd h hc, fun _ h => absurd h hcheck⟩

theorem not_truncated_iff_post :
    let text := ascii "POST / HTTP/1.1\r\nContent-Length: 2\r\n\r\nab"
    ∃ r, (recvRequest .blocking (.ofSegments [text])).1 = some r ∧
      (NotTruncated r 2 ↔ LengthEnforced r.bytes 2) := by
  intro text
  have hrecv : (recvRequest .blocking (.ofSegments [text])).1 = some ⟨text, 4096, by decide⟩ := by
    decide +kernel
  have hlength : CarriesLength text 2 :=
    ⟨ascii "Content-Length: 2", by decide +kernel, ⟨by decide +kernel, by decide +kernel⟩,
      [32], [50], [], by decide, by decide +kernel, by decide, by decide +kernel, by decide⟩
  exact ⟨_, hrecv, not_truncated_iff hlength⟩

/-- The peer closes after the head of a POST request that declares five bytes: the handler is
reached with no body. -/
theorem closed_after_head_dispatched :
    ¬ ∀ mode peer r n, (recvRequest mode peer).1 = some r →
      (detectProtocol (cstr r.memory) (cstr r.memory).length).type = .http →
      CarriesLength r.bytes n → NotTruncated r n := by
  intro h
  let text := ascii "POST / HTTP/1.1\r\nContent-Length: 5\r\n\r\n"
  have hrecv : (recvRequest .blocking (.ofSegments [text])).1 = some ⟨text, 4096, by decide⟩ := by
    decide +kernel
  have hlength : CarriesLength text 5 :=
    ⟨ascii "Content-Length: 5", by decide +kernel, ⟨by decide +kernel, by decide +kernel⟩,
      [32], [53], [], by decide, by decide +kernel, by decide, by decide +kernel, by decide⟩
  obtain ⟨code, req, hparse, hcode⟩ :=
    (h _ _ _ 5 hrecv (by decide +kernel) hlength).otherwise (by decide +kernel)
  have hzero : (parseHttpRequest (text ++ [0]) .zeroed).map (·.1) = .ok 0 := by decide +kernel
  have hparse' : (parseHttpRequest (text ++ [0]) .zeroed).map (·.1) = .ok code :=
    congrArg (Except.map (·.1)) hparse
  rw [hzero, Except.ok.injEq] at hparse'
  omega

end MinhServer
