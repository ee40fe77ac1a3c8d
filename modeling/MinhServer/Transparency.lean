import MinhServer.Http.DeclaredLength

namespace MinhServer
open CString Wire

/-- A call receives a request and the parser finds `body` in it. -/
def ComesThrough (body : Bytes) (mode : Mode) (peer : Peer Byte) : Prop :=
  ∃ r peer' req, recvRequest mode peer = (some r, peer') ∧
    parseHttpRequest r.memory .zeroed = .ok (0, req) ∧ req.bodyLength = body.length ∧
    req.body = some body

/-- The body comes through alone behind its head, however the two are cut and whatever the peer
does then. -/
def Transparent (head body : Bytes) : Prop :=
  ∀ mode (segs : List Bytes) ending, segs.flatten = head ++ body →
    ComesThrough body mode ⟨segs.map .data, ending⟩

/-- What the receiving side makes of the head: the request is complete with the last byte of the
body and not before. -/
structure FramedExactly (head body : Bytes) : Prop where
  method : isBodyless (requestMethod head) = false
  length : 0 < getContentLength head head.length → getContentLength head head.length = body.length
  chunked : getContentLength head head.length ≤ 0 → isChunkedTransfer head head.length = true →
    endMarker <:+: body ∧ ¬ endMarker <:+: body.dropLast
  undeclared : getContentLength head head.length ≤ 0 →
    isChunkedTransfer head head.length = false → body.length = 1

/-- What has to hold of a request for its body to come through. -/
structure Survives (head body : Bytes) : Prop where
  noNul : 0 ∉ body
  framed : FramedExactly head body
  limit : (head ++ body).length ≤ maxRequest + 1
  fits : HeadFits (headLines head)
  measured : ∃ field, contentLengthField (headLines head).tail = some field ∧
    MeasuresBody field.2 body

section Framing
variable {head body : Bytes}

theorem frameEnd_append_iff (hbody : body ≠ []) :
    FrameEnd (head ++ body) (head ++ body).length ↔
      requestComplete (head ++ body) = true ∧ requestComplete (head ++ body.dropLast) = false := by
  have hlen : (head ++ body.dropLast).length + 1 = (head ++ body).length := by
    have hpos := List.length_pos_iff.mpr hbody
    simp only [List.length_append, List.length_dropLast]
    omega
  have htake : (head ++ body).take (head ++ body.dropLast).length = head ++ body.dropLast := by
    have hsplit : head ++ body = head ++ body.dropLast ++ [body.getLast hbody] := by
      rw [List.append_assoc, List.dropLast_append_getLast]
    rw [hsplit, List.take_left]
  constructor
  · intro h
    refine ⟨h.stream_done, ?_⟩
    rw [← htake]
    exact h.first _ (by omega)
  · rintro ⟨hdone, hopen⟩
    refine ⟨le_rfl, by rwa [List.take_length], fun q hq => ?_⟩
    by_contra hq'
    rw [← htake] at hopen
    have hmono := requestComplete_take_mono (by omega : q ≤ (head ++ body.dropLast).length)
      (by simpa using hq')
    rw [hopen] at hmono
    cases hmono

theorem framedExactly_iff (hend : findHttpHeaderEnd head = some head.length) (hbody : body ≠ []) :
    FrameEnd (head ++ body) (head ++ body).length ↔ FramedExactly head body := by
  have hpos := List.length_pos_iff.mpr hbody
  rw [frameEnd_append_iff hbody, requestComplete_head hend, requestComplete_head hend]
  by_cases hmethod : isBodyless (requestMethod head) = true
  · rw [hmethod]
    exact iff_of_false (fun h => by simp at h) fun h => by simp [h.method] at hmethod
  rw [Bool.not_eq_true] at hmethod
  rw [hmethod, Bool.false_or, Bool.false_or, bodyComplete, bodyComplete]
  -- the declared length counts before the chunked test, and that before any byte of a body
  by_cases hlength : 0 < getContentLength head head.length
  · rw [if_pos hlength, if_pos hlength, decide_eq_true_iff, decide_eq_false_iff_not]
    simp only [List.length_append, List.length_dropLast]
    constructor
    · intro h
      exact ⟨hmethod, fun _ => by omega, fun hnot => by omega, fun hnot => by omega⟩
    · intro h
      have heq := h.length hlength
      omega
  rw [if_neg hlength, if_neg hlength]
  by_cases hchunked : isChunkedTransfer head head.length = true
  · rw [if_pos hchunked, if_pos hchunked, List.drop_left, List.drop_left,
      isChunkedBodyComplete_iff, ← Bool.not_eq_true, isChunkedBodyComplete_iff]
    constructor
    · intro h
      exact ⟨hmethod, fun hnot => absurd hnot hlength, fun _ _ => h, fun _ hnot => by
        simp [hchunked] at hnot⟩
    · exact fun h => h.chunked (not_lt.mp hlength) hchunked
  · rw [if_neg hchunked, if_neg hchunked, decide_eq_true_iff, decide_eq_false_iff_not]
    simp only [List.length_append, List.length_dropLast]
    constructor
    · intro h
      exact ⟨hmethod, fun hnot => absurd hnot hlength, fun _ hnot => absurd hnot hchunked,
        fun _ _ => by omega⟩
    · intro h
      have hone := h.undeclared (not_lt.mp hlength) (by simpa using hchunked)
      omega

end Framing

theorem frameEnd_of_trickle {mode : Mode} {p p' : Peer Byte} {r : RecvBuffer} (hp : p.Trickle)
    (hsilent : p.ending = .silent) (hr : recvRequest mode p = (some r, p')) :
    ∃ n, FrameEnd p.bytes n ∧ n ≤ maxRequest + 1 ∧ r.bytes = p.bytes.take n := by
  obtain ⟨r', n, q, hr', ho, hn, -⟩ := recvRequest_outcome (Peer.steady_trickle mode) hp
  obtain ⟨hsame, -⟩ := Prod.mk.inj (hr'.symm.trans hr)
  subst hsame
  cases ho with
  | @complete _ _ q _ _ bytes done notYet buffer arrives =>
    obtain ⟨p₀, bs, hp₀, hrecv, rfl⟩ := arrives
    have hbs := (Peer.Trickle.recv hp₀ hrecv).2
    have hlt := buffer.lt
    have hlimit := buffer.limit
    refine ⟨_, ⟨hn, done, fun k hk => ?_⟩, by omega, bytes⟩
    by_contra hdone
    have hearly := requestComplete_take_mono (by omega : k ≤ q) (by simpa using hdone)
    rw [hearly] at notYet
    cases notYet
  | closed _ _ _ close =>
    rw [hsilent] at close
    cases close

section Parsing
variable {head body c : Bytes} {r : RecvBuffer}

/-- The parser finds the text behind a whole head exactly when the lines fit and the length
measures the text. -/
theorem parse_finds_iff (hhead : WholeHead head) {text : Bytes} (htext : cstr text = head ++ c)
    (hbody : body ≠ []) :
    (∃ req, parseHttpRequest text .zeroed = .ok (0, req) ∧ req.bodyLength = body.length ∧
        req.body = some body) ↔
      HeadFits (headLines head) ∧ c = body ∧
        ∃ field, contentLengthField (headLines head).tail = some field ∧ MeasuresBody field.2 c := by
  have hisOk := readLines_isOk_iff hhead.line_noNul
  rw [parse_wholeHead hhead htext]
  cases hread : readLines (headLines head) with
  | error fault =>
    have hnot : ¬ HeadFits (headLines head) := fun hf => by
      obtain ⟨req, hreq⟩ := hisOk.mpr hf
      rw [hread] at hreq
      cases hreq
    refine iff_of_false ?_ fun h => hnot h.1
    rintro ⟨req, hreq, -⟩
    cases hreq
  | ok req =>
    have hfits := hisOk.mp ⟨req, hread⟩
    have hreq := readLines_parsed hread
    have hverdict : bodyVerdict (headLines head).tail c = some true ↔ c ≠ [] ∧
        ∃ field, contentLengthField (headLines head).tail = some field ∧ MeasuresBody field.2 c := by
      unfold bodyVerdict
      by_cases hc : c = []
      · simp [hc]
      · simp [hc]
    have hok : ((Except.ok req : Except Fault HttpRequest) >>= fun req => .ok (parseBody c req)) =
        .ok (parseBody c req) := rfl
    simp only [hok, Except.ok.injEq, parseBody_eq hreq hfits.headerLine]
    have hright : bodyVerdict (headLines head).tail c ≠ some true →
        ¬ (HeadFits (headLines head) ∧ c = body ∧ ∃ field,
          contentLengthField (headLines head).tail = some field ∧ MeasuresBody field.2 c) := by
      rintro hnot ⟨-, rfl, hfield⟩
      exact hnot (hverdict.mpr ⟨hbody, hfield⟩)
    cases hv : bodyVerdict (headLines head).tail c with
    | none =>
      refine iff_of_false ?_ (hright (by simp [hv]))
      rintro ⟨req', hsame, -, hsome⟩
      obtain ⟨-, rfl⟩ := Prod.mk.inj hsame
      rw [hreq.body] at hsome
      cases hsome
    | some accepted =>
      cases accepted with
      | false =>
        refine iff_of_false ?_ (hright (by simp [hv]))
        rintro ⟨req', hsame, -⟩
        cases (Prod.mk.inj hsame).1
      | true =>
        constructor
        · rintro ⟨req', hsame, -, hsome⟩
          obtain ⟨-, rfl⟩ := Prod.mk.inj hsame
          exact ⟨hfits, Option.some.inj hsome, (hverdict.mp hv).2⟩
        · rintro ⟨-, rfl, -⟩
          exact ⟨_, rfl, rfl, rfl⟩

end Parsing

section Whole
variable {head body : Bytes}

theorem cstr_headed (hhead : WholeHead head) {r : RecvBuffer} {part : Bytes}
    (hbytes : r.bytes = head ++ part) : cstr r.memory = head ++ cstr part := by
  rw [cstr_memory, hbytes, cstr_append hhead.noNul]

theorem Survives.transparent (hhead : WholeHead head) (hbody : body ≠ [])
    (h : Survives head body) : Transparent head body := by
  intro mode segs ending hsegs
  have hstream := Peer.bytes_segments segs ending
  rw [hsegs] at hstream
  have hframe := (framedExactly_iff hhead.ends hbody).mpr h.framed
  have hlimit := h.limit
  rw [← hstream] at hframe hlimit
  obtain ⟨r, p', hr, hbytes, -⟩ := recvRequest_whole (Peer.steady_pauseless mode)
    (Peer.pauseless_segments segs ending) hframe hlimit
  rw [hstream] at hbytes
  have htext : cstr r.memory = head ++ body := by
    rw [cstr_headed hhead hbytes, cstr_eq_self h.noNul]
  obtain ⟨req, hreq⟩ :=
    (parse_finds_iff hhead htext hbody).mpr ⟨h.fits, rfl, h.measured⟩
  exact ⟨r, p', req, hr, hreq⟩

/-- Byte by byte and with a silent peer, every condition is needed. -/
theorem survives_of_transparent (hhead : WholeHead head) (hbody : body ≠ [])
    (h : Transparent head body) : Survives head body := by
  obtain ⟨r, p', req, hr, hreq⟩ := h .blocking ((head ++ body).map fun b => [b]) .silent
    (Peer.flatten_singletons _)
  obtain ⟨n, hframe, hlimit, hbytes⟩ :=
    frameEnd_of_trickle (Peer.trickle_singletons (head ++ body) .silent) rfl hr
  rw [Peer.bytes_segments, Peer.flatten_singletons] at hframe hbytes
  have hlong : head.length ≤ n := by
    by_contra hshort
    have hdone := hframe.done
    rw [List.take_append_of_le_length (by omega),
      requestComplete_take_head hhead.ends (by omega)] at hdone
    cases hdone
  have hpart : r.bytes = head ++ body.take (n - head.length) := by
    rw [hbytes, List.take_append, List.take_of_length_le hlong]
  obtain ⟨hfits, htext, hmeasured⟩ :=
    (parse_finds_iff hhead (cstr_headed hhead hpart) hbody).mp ⟨req, hreq⟩
  have hlen := (cstr_isPrefix (body.take (n - head.length))).length_le
  rw [htext] at hlen
  have hall : body.take (n - head.length) = body := by
    rw [List.length_take] at hlen
    exact List.take_of_length_le (by omega)
  rw [hall] at htext hmeasured
  have hn : n = (head ++ body).length := by
    have hle := hframe.le
    rw [List.length_take] at hlen
    rw [List.length_append] at hle ⊢
    omega
  rw [hn] at hframe hlimit
  refine ⟨?_, (framedExactly_iff hhead.ends hbody).mp hframe, hlimit, hfits, ?_⟩
  · rw [← htext]
    exact zero_notMem_cstr body
  · rwa [htext] at hmeasured

end Whole

/-- Exactly these bodies come through. -/
theorem transparent_iff {head body : Bytes} (hhead : WholeHead head) (hbody : body ≠ []) :
    Transparent head body ↔ Survives head body :=
  ⟨survives_of_transparent hhead hbody, Survives.transparent hhead hbody⟩

theorem transparent_iff_post :
    let head := ascii "POST / HTTP/1.1\r\nContent-Length: 2\r\n\r\n"
    Transparent head [255, 10] ↔ Survives head [255, 10] :=
  transparent_iff ⟨by decide +kernel, by decide +kernel⟩ (by decide)

/-- A NUL in the body ends it for the parser. -/
theorem nul_in_body_rejected :
    ¬ ∀ head body, WholeHead head → body ≠ [] → (headLines head).tail.length ≤ 20 →
      HeadFits (headLines head) → DeclaresOnce (headLines head).tail body.length →
      Transparent head body := by
  intro h
  let line := ascii "Content-Length: 3"
  let head := ascii "POST / HTTP/1.1\r\nContent-Length: 3\r\n\r\n"
  have hhead : WholeHead head := ⟨by decide +kernel, by decide +kernel⟩
  have hlines : (headLines head).tail = [line] := by decide +kernel
  have hvalue : HasDecimalValue line 3 :=
    ⟨[32], [51], [], by decide, by decide +kernel, by decide, by decide +kernel, by decide⟩
  have honce : DeclaresOnce (headLines head).tail 3 :=
    ⟨[], line, [], hlines, ⟨by decide +kernel, by decide +kernel⟩, hvalue, by simp⟩
  have hfits : HeadFits (headLines head) :=
    headFits_of_toBool hhead.line_noNul (by decide +kernel)
  have htransparent := h head [65, 0, 66] hhead (by decide) (by rw [hlines]; decide) hfits honce
  have hsurvives := survives_of_transparent hhead (by decide) htransparent
  exact hsurvives.noNul (by decide)

end MinhServer
