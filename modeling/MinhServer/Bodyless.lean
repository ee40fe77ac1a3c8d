import MinhServer.Http.DeclaredLength

namespace MinhServer
open CString Wire

/-- The call returns exactly the head, and leaves what comes next unread. -/
def EndsAtHead (next : Peer Byte) (head : Bytes) (result : Option RecvBuffer × Peer Byte) : Prop :=
  ∃ r blank, result = (some r, next.behind blank) ∧ blank.flatten = [] ∧ r.bytes = head

/-- The call makes one more `recv` behind the head: it returns the head with what that brings,
or the head alone if the peer has closed, and NULL on a timeout or an error. -/
def EndsWithNext (mode : Mode) (next : Peer Byte) (head : Bytes)
    (result : Option RecvBuffer × Peer Byte) : Prop :=
  ∃ room, 0 < room ∧
    match next.recv mode room with
    | (.data bytes, p') => ∃ r, result = (some r, p') ∧ r.bytes = head ++ bytes
    | (.eof, p') => ∃ r, result = (some r, p') ∧ r.bytes = head
    | (.again, p') | (.error, p') => result = (none, p')

def HasName (line : Bytes) (name : String) : Prop :=
  58 ∈ line ∧ sameNoCase (fieldName line) (ascii name) = true

/-- No header line is named `Transfer-Encoding`, and a declared length is 0. -/
structure DeclaresNoBody (head : Bytes) : Prop where
  transfer : ∀ line ∈ (headLines head).tail, ¬ HasName line "Transfer-Encoding"
  length : ∀ line ∈ (headLines head).tail, NamesContentLength line → HasDecimalValue line 0

section Segments
variable {mode : Mode} {head : Bytes} {next : Peer Byte}
  (hend : findHttpHeaderEnd head = some head.length) (hlimit : head.length ≤ maxRequest)
include hend hlimit

/-- The loop goes on to the arrival that ends the head, however the head is cut. -/
theorem recvLoop_behind {s : RecvState} (hs : RecvInv s) {segs : List Bytes}
    (hdata : s.data ++ segs.flatten = head) (hne : segs.flatten ≠ []) :
    ∃ blank : List Bytes, blank.flatten = [] ∧
      ((requestComplete head = true ∧ ∃ r, recvLoop mode s (next.behind segs) =
          (some r, next.behind blank) ∧ r.bytes = head) ∨
        (requestComplete head = false ∧ ∃ t, RecvInv t ∧ t.data = head ∧
          recvLoop mode s (next.behind segs) = recvLoop mode t (next.behind blank))) := by
  induction hsize : segs.flatten.length using Nat.strong_induction_on generalizing s segs with
  | _ size ih =>
  obtain ⟨bytes, segs', hrecv, hflat⟩ :=
    Peer.recv_behind mode hs.remaining_pos.ne' hne next
  obtain ⟨hbytes, -⟩ := Peer.recv_data hrecv
  have hgot : s.data ++ bytes ++ segs'.flatten = head := by
    rw [List.append_assoc, ← hflat, hdata]
  have htotal : (s.data ++ bytes).length + segs'.flatten.length = head.length := by
    have hlength := congrArg List.length hgot
    rwa [List.length_append] at hlength
  have hwhole : segs'.flatten = [] → s.data ++ bytes = head := by
    intro hnil
    rw [← hgot, hnil, List.append_nil]
  have hpart : segs'.flatten ≠ [] → requestComplete (s.data ++ bytes) = false := by
    intro hmore
    have hpos := List.length_pos_iff.mpr hmore
    have htake : head.take (s.data ++ bytes).length = s.data ++ bytes := by
      rw [← hgot, List.take_left]
    rw [← htake]
    exact requestComplete_take_head hend (by omega)
  obtain ⟨hdone, r, hloop, hr⟩ | ⟨-, hlong, -⟩ | ⟨hopen, -, s', hs', hd, hloop⟩ :=
    hs.recvLoop_data hrecv
  · have hnil : segs'.flatten = [] := by
      by_contra hmore
      rw [hpart hmore] at hdone
      cases hdone
    rw [hwhole hnil] at hdone hr
    exact ⟨segs', hnil, .inl ⟨hdone, r, hloop, hr⟩⟩
  · omega
  · by_cases hnil : segs'.flatten = []
    · rw [hwhole hnil] at hopen hd
      exact ⟨segs', hnil, .inr ⟨hopen, s', hs', hd, hloop⟩⟩
    · have hlt : segs'.flatten.length < size := by
        have hpos := List.length_pos_iff.mpr hbytes
        rw [← hsize, hflat, List.length_append]
        omega
      rw [hloop]
      exact ih _ hlt hs' (by rw [hd]; exact hgot) hnil rfl

theorem recvRequest_bodyless {segs : List Bytes} (hsegs : segs.flatten = head)
    (hmethod : isBodyless (requestMethod head) = true) :
    EndsAtHead next head (recvRequest mode (next.behind segs)) := by
  have hne : segs.flatten ≠ [] := by
    intro hnil
    rw [← hsegs, hnil] at hend
    cases hend
  obtain ⟨blank, hblank, ⟨-, r, hloop, hr⟩ | ⟨hopen, -⟩⟩ :=
    recvLoop_behind hend hlimit recvInv_init hsegs hne
  · exact ⟨r, blank, hloop, hblank, hr⟩
  · have hdone := (frameEnd_bodyless hend hmethod).stream_done
    rw [hopen] at hdone
    cases hdone

/-- A head of another method that declares nothing ends the call with the next `recv`. -/
theorem recvRequest_undeclared {segs : List Bytes} (hsegs : segs.flatten = head)
    (hmethod : isBodyless (requestMethod head) = false)
    (hlength : getContentLength head head.length = -1)
    (hchunked : isChunkedTransfer head head.length = false) :
    EndsWithNext mode next head (recvRequest mode (next.behind segs)) := by
  -- nothing is declared: any byte behind the head completes the request
  have hcomplete : ∀ bytes, requestComplete (head ++ bytes) = decide (bytes ≠ []) := by
    intro bytes
    rw [requestComplete_head hend, hmethod, hlength, hchunked, Bool.false_or, bodyComplete,
      if_neg (by decide), if_neg (by decide), decide_eq_decide, List.length_append,
      ← List.length_pos_iff]
    omega
  have hopen : requestComplete head = false := by
    have h := hcomplete []
    rwa [List.append_nil] at h
  have hne : segs.flatten ≠ [] := by
    intro hnil
    rw [← hsegs, hnil] at hend
    cases hend
  obtain ⟨blank, hblank, ⟨hdone, -⟩ | ⟨-, t, ht, hdata, hloop⟩⟩ :=
    recvLoop_behind hend hlimit recvInv_init hsegs hne
  · rw [hopen] at hdone
    cases hdone
  refine ⟨t.grow.remaining, ht.remaining_pos, ?_⟩
  rw [recvRequest, hloop]
  have hblankRecv : (next.behind blank).recv mode t.grow.remaining =
      next.recv mode t.grow.remaining :=
    Peer.recv_behind_blank mode ht.remaining_pos.ne' hblank next
  cases hrecv : next.recv mode t.grow.remaining with
  | mk res p' =>
    rw [hrecv] at hblankRecv
    cases res with
    | data bytes =>
      obtain ⟨hbytes, -⟩ := Peer.recv_data hrecv
      have hdone : requestComplete (t.data ++ bytes) = true := by
        rw [hdata, hcomplete]
        exact decide_eq_true hbytes
      obtain ⟨-, r, hround, hr⟩ | ⟨hnot, -⟩ | ⟨hnot, -⟩ := ht.recvLoop_data hblankRecv
      · exact ⟨r, hround, hr.trans (by rw [hdata])⟩
      · rw [hdone] at hnot
        cases hnot
      · rw [hdone] at hnot
        cases hnot
    | eof =>
      rw [recvLoop_eq, hblankRecv]
      exact ⟨_, rfl, (finish_bytes _).trans ((grow_data t).trans hdata)⟩
    | again | error =>
      rw [recvLoop_eq, hblankRecv]

end Segments

theorem short_of_isBodyless {method : Bytes} (h : isBodyless method = true) :
    method.length ≤ 7 ∧ 0 ∉ method ∧ 13 ∉ method := by
  have hname : ∃ name ∈ [ascii "GET", ascii "HEAD", ascii "DELETE", ascii "OPTIONS"],
      method.map tolower = name.map tolower := by
    simpa [isBodyless, sameNoCase, or_assoc] using h
  obtain ⟨name, hname, heq⟩ := hname
  have hnames : ∀ name ∈ [ascii "GET", ascii "HEAD", ascii "DELETE", ascii "OPTIONS"],
      name.length ≤ 7 ∧ tolower 0 ∉ name.map tolower ∧ tolower 13 ∉ name.map tolower := by decide
  obtain ⟨hlen, hnul, hcr⟩ := hnames name hname
  rw [← heq] at hnul hcr
  refine ⟨?_, fun hmem => hnul (List.mem_map_of_mem hmem), fun hmem => hcr (List.mem_map_of_mem hmem)⟩
  have hsame := congrArg List.length heq
  rw [List.length_map, List.length_map] at hsame
  omega

/-- A method of the list is followed by a space, and fits `method`. -/
theorem isBodyless_of_text {head : Bytes} (hend : findHttpHeaderEnd head = some head.length)
    (h : isBodyless (head.takeWhile (· ≠ 32)) = true) : isBodyless (requestMethod head) = true := by
  obtain ⟨hlen, hnul, hcr⟩ := short_of_isBodyless h
  have hsplit : head = head.takeWhile (· ≠ 32) ++ head.dropWhile (· ≠ 32) :=
    List.takeWhile_append_dropWhile.symm
  have hspace : 32 ∉ head.takeWhile (· ≠ 32) := fun hmem => by
    simpa using List.mem_takeWhile_imp hmem
  generalize head.takeWhile (· ≠ 32) = method at h hlen hnul hcr hsplit hspace
  cases hrest : head.dropWhile (· ≠ 32) with
  | nil =>
    -- without a space the method would be the head with its CRLFCRLF
    rw [hrest, List.append_nil] at hsplit
    rw [findHttpHeaderEnd_eq, Option.map_eq_some_iff] at hend
    obtain ⟨e, he, -⟩ := hend
    have hmem : 13 ∈ head.drop e := (strstr_found he).subset (by decide)
    exact absurd (hsplit ▸ List.mem_of_mem_drop hmem) hcr
  | cons b rest =>
    have hb : b = 32 := by
      have hhead := List.head_dropWhile_not (· ≠ (32 : Byte)) (l := head) (by rw [hrest]; simp)
      simp only [hrest, List.head_cons] at hhead
      simpa using hhead
    have hcstr : cstr head = method ++ 32 :: cstr rest := by
      rw [hsplit, hrest, hb, cstr_append hnul]
      rfl
    have hheaders : head.take method.length = method := by
      rw [hsplit, List.take_left]
    rw [requestMethod, hcstr, strchr_append hspace]
    dsimp only
    rw [if_pos (by omega), hheaders]
    exact h

theorem getContentLength_of_absent {head : Bytes} (h : ¬ ascii "Content-Length:" <:+: head) :
    getContentLength head head.length = -1 := by
  have hnone : strstr (cstr head) (ascii "Content-Length:") = none := by
    rw [strstr_eq_none_iff]
    exact fun hin => h (hin.trans (cstr_isPrefix head).isInfix)
  rw [getContentLength, hnone]

theorem isChunkedTransfer_of_absent {head : Bytes} (h : ¬ ascii "Transfer-Encoding:" <:+: head) :
    isChunkedTransfer head head.length = false := by
  have hnone : strstr (cstr head) (ascii "Transfer-Encoding:") = none := by
    rw [strstr_eq_none_iff]
    exact fun hin => h (hin.trans (cstr_isPrefix head).isInfix)
  rw [isChunkedTransfer, hnone]

/-- However the head is cut: one with GET, HEAD, DELETE or OPTIONS ends the call, and one with
another method that names no length and no encoding ends it with the next `recv`. -/
theorem bodyless_request_ends {head : Bytes} (hhead : WholeHead head)
    (hlimit : head.length ≤ maxRequest) (mode : Mode) (segs : List Bytes)
    (hsegs : segs.flatten = head) (next : Peer Byte) :
    (isBodyless (head.takeWhile (· ≠ 32)) = true →
      EndsAtHead next head (recvRequest mode (next.behind segs))) ∧
    (isBodyless (head.takeWhile (· ≠ 32)) = false → ¬ ascii "Content-Length:" <:+: head →
      ¬ ascii "Transfer-Encoding:" <:+: head →
      EndsWithNext mode next head (recvRequest mode (next.behind segs))) := by
  constructor
  · intro hmethod
    exact recvRequest_bodyless hhead.ends hlimit hsegs (isBodyless_of_text hhead.ends hmethod)
  · intro hmethod hlength hencoding
    exact recvRequest_undeclared hhead.ends hlimit hsegs
      (isBodyless_requestMethod hhead.noNul hmethod) (getContentLength_of_absent hlength)
      (isChunkedTransfer_of_absent hencoding)

theorem bodyless_request_ends_post :
    let head := ascii "POST / HTTP/1.1\r\n\r\n"
    EndsWithNext .blocking ⟨[.data [65]], .silent⟩ head
      (recvRequest .blocking ((⟨[.data [65]], .silent⟩ : Peer Byte).behind [head.take 4, head.drop 4])) :=
  (bodyless_request_ends ⟨by decide +kernel, by decide +kernel⟩ (by decide +kernel) .blocking _
    (by decide +kernel) _).2 (by decide +kernel) (by decide +kernel) (by decide +kernel)

/-- A POST head without a body is not returned while the peer keeps silent. -/
theorem undeclared_post_waits :
    ¬ ∀ mode segs next, WholeHead (List.flatten segs) → DeclaresNoBody segs.flatten →
      EndsAtHead next segs.flatten (recvRequest mode (next.behind segs)) := by
  intro h
  let head := ascii "POST / HTTP/1.1\r\n\r\n"
  have hlines : (headLines [head].flatten).tail = [] := by decide +kernel
  have hnone : DeclaresNoBody [head].flatten := by
    refine ⟨?_, ?_⟩
    · rw [hlines]
      exact List.forall_mem_nil _
    · rw [hlines]
      exact List.forall_mem_nil _
  obtain ⟨r, blank, hrecv, -⟩ :=
    h .blocking [head] ⟨[], .silent⟩ ⟨by decide +kernel, by decide +kernel⟩ hnone
  have hnull : (recvRequest .blocking ((⟨[], .silent⟩ : Peer Byte).behind [head])).1 = none := by
    decide +kernel
  rw [hrecv] at hnull
  cases hnull

end MinhServer
