import Mathlib.Data.Nat.Find
import MinhServer.Socket

namespace MinhServer
open CString Wire

theorem findHttpHeaderEnd_eq (data : Bytes) :
    findHttpHeaderEnd data = (strstr data headEnd).map (· + 4) := by
  induction data using findHttpHeaderEnd.induct with
  | case1 t =>
    rw [findHttpHeaderEnd, strstr_eq_zero (by simp [headEnd])]
    rfl
  | case2 b t hne ih =>
    have hp : ¬ headEnd <+: b :: t := by
      rintro ⟨u, hu⟩
      simp only [headEnd, List.cons_append, List.nil_append, List.cons.injEq] at hu
      exact hne u hu.1.symm hu.2.symm
    rw [findHttpHeaderEnd, ih, strstr_cons_of_not hp]
    · simp [Option.map_map, Function.comp_def, Nat.add_right_comm]
    · exact hne
  | case3 => rfl

theorem findHttpHeaderEnd_append {data : Bytes} {pos : Nat}
    (h : findHttpHeaderEnd data = some pos) (t : Bytes) :
    findHttpHeaderEnd (data ++ t) = some pos := by
  rw [findHttpHeaderEnd_eq] at h ⊢
  obtain ⟨i, hi, rfl⟩ := Option.map_eq_some_iff.mp h
  rw [strstr_append (by decide) hi]
  rfl

theorem findHttpHeaderEnd_le {data : Bytes} {pos : Nat}
    (h : findHttpHeaderEnd data = some pos) : 4 ≤ pos ∧ pos ≤ data.length := by
  rw [findHttpHeaderEnd_eq] at h
  obtain ⟨i, hi, rfl⟩ := Option.map_eq_some_iff.mp h
  have := strstr_end_le (by decide) hi
  simp only [headEnd, List.length_cons, List.length_nil] at this
  omega

theorem scanEndMarker_iff (body : Bytes) (n : Nat) :
    scanEndMarker body n = true ↔ ∃ i ≤ n, endMarker <+: body.drop i := by
  induction n with
  | zero => simp [scanEndMarker]
  | succ n ih =>
    by_cases h : endMarker <+: body.drop (n + 1)
    · simp only [scanEndMarker, h, ↓reduceIte, true_iff]
      exact ⟨n + 1, le_rfl, h⟩
    · rw [scanEndMarker, if_neg h, ih]
      constructor
      · rintro ⟨i, hi, hp⟩
        exact ⟨i, by omega, hp⟩
      · rintro ⟨i, hi, hp⟩
        rcases Nat.lt_or_eq_of_le hi with hlt | rfl
        · exact ⟨i, by omega, hp⟩
        · exact absurd hp h

theorem isChunkedBodyComplete_iff (body : Bytes) :
    isChunkedBodyComplete body = true ↔ endMarker <:+: body := by
  have hlen : endMarker.length = 5 := rfl
  unfold isChunkedBodyComplete
  constructor
  · intro h
    split at h
    · cases h
    · obtain ⟨i, -, hp⟩ := (scanEndMarker_iff _ _).mp h
      exact hp.isInfix.trans (List.drop_suffix _ _).isInfix
  · rintro ⟨a, b, rfl⟩
    simp only [List.length_append, hlen]
    rw [if_neg (by omega), scanEndMarker_iff]
    refine ⟨a.length, by omega, ?_⟩
    rw [List.append_assoc, List.drop_left]
    exact List.prefix_append _ _

theorem bodyComplete_append {contentLength : Int} {isChunked : Bool} {pos : Nat} {data : Bytes}
    (hpos : pos ≤ data.length) (h : bodyComplete contentLength isChunked pos data = true)
    (t : Bytes) : bodyComplete contentLength isChunked pos (data ++ t) = true := by
  unfold bodyComplete at h ⊢
  split_ifs at h ⊢ with hlen hch
  · simp only [decide_eq_true_eq, List.length_append] at h ⊢
    omega
  · rw [isChunkedBodyComplete_iff] at h ⊢
    rw [List.drop_append_of_le_length hpos]
    exact h.trans (List.prefix_append _ _).isInfix
  · simp only [decide_eq_true_eq, List.length_append] at h ⊢
    omega

/-- Whether the loop stops once `data` has been received. -/
def requestComplete (data : Bytes) : Bool :=
  match findHttpHeaderEnd data with
  | none => false
  | some pos =>
    let headers := data.take pos
    isBodyless (requestMethod headers) ||
      bodyComplete (getContentLength headers pos) (isChunkedTransfer headers pos) pos data

theorem requestComplete_append {data : Bytes} (h : requestComplete data = true) (t : Bytes) :
    requestComplete (data ++ t) = true := by
  unfold requestComplete at h ⊢
  cases hf : findHttpHeaderEnd data with
  | none => simp [hf] at h
  | some pos =>
    have hpos := (findHttpHeaderEnd_le hf).2
    rw [findHttpHeaderEnd_append hf]
    simp only [hf, Bool.or_eq_true] at h
    simp only [List.take_append_of_le_length hpos, Bool.or_eq_true]
    exact h.imp id fun hb => bodyComplete_append hpos hb t

theorem requestComplete_take_mono {s : Bytes} {m n : Nat} (hmn : m ≤ n)
    (h : requestComplete (s.take m) = true) : requestComplete (s.take n) = true := by
  obtain ⟨t, ht⟩ := List.take_prefix_take_left hmn (l := s)
  rw [← ht]
  exact requestComplete_append h t

def IsBufferSize (n : Nat) : Prop := ∃ k, n = 4096 * 2 ^ k

theorem IsBufferSize.le_of_lt_two_mul {m n : Nat} (hm : IsBufferSize m) (hn : IsBufferSize n)
    (h : m < 2 * n) : m ≤ n := by
  obtain ⟨j, rfl⟩ := hm
  obtain ⟨k, rfl⟩ := hn
  have hj : 2 ^ j < 2 ^ (k + 1) := by rw [Nat.pow_succ]; omega
  have := Nat.pow_le_pow_right (show 0 < 2 by decide)
    (Nat.lt_succ_iff.mp ((Nat.pow_lt_pow_iff_right (by decide)).mp hj))
  omega

theorem isBufferSize_min : IsBufferSize 4096 := ⟨0, rfl⟩

theorem IsBufferSize.double {n : Nat} (h : IsBufferSize n) : IsBufferSize (n * 2) := by
  obtain ⟨k, rfl⟩ := h
  exact ⟨k + 1, by rw [Nat.pow_succ, Nat.mul_assoc]⟩

theorem IsBufferSize.pos {n : Nat} (h : IsBufferSize n) : 0 < n := by
  obtain ⟨k, rfl⟩ := h
  have := Nat.two_pow_pos k
  omega

/-- The locals about the head hold what the bytes received so far say, and these do not
complete the request. -/
structure HeadRead (s : RecvState) : Prop where
  incomplete : requestComplete s.data = false
  header : s.headerEndPos = findHttpHeaderEnd s.data
  fields : ∀ pos, s.headerEndPos = some pos →
    s.contentLength = getContentLength (s.data.take pos) pos ∧
      s.isChunked = isChunkedTransfer (s.data.take pos) pos

/-- What holds of the locals before every round of the loop. -/
structure RecvInv (s : RecvState) : Prop extends HeadRead s where
  size : IsBufferSize s.bufferSize
  fits : s.data.length ≤ s.bufferSize
  tight : s.bufferSize ≤ max 4096 (2 * s.data.length)
  limit : s.data.length ≤ maxRequest

theorem recvInv_init : RecvInv {} where
  incomplete := rfl
  header := rfl
  fields := by simp
  size := isBufferSize_min
  fits := by decide
  tight := by decide
  limit := by decide

theorem grow_data (s : RecvState) : s.grow.data = s.data := by
  unfold RecvState.grow
  split_ifs <;> rfl

theorem HeadRead.grow {s : RecvState} (h : HeadRead s) : HeadRead s.grow := by
  unfold RecvState.grow
  split_ifs
  · exact ⟨h.incomplete, h.header, h.fields⟩
  · exact h

/-- After `grow` there is room for a byte, in a buffer less than twice too big. -/
theorem RecvInv.room_grow {s : RecvState} (h : RecvInv s) :
    IsBufferSize s.grow.bufferSize ∧ s.data.length < s.grow.bufferSize ∧
      s.grow.bufferSize ≤ max 4096 (2 * s.data.length) := by
  have hfit := h.fits
  have htight := h.tight
  have hpos := h.size.pos
  unfold RecvState.grow
  split_ifs with hfull
  · refine ⟨h.size.double, ?_, ?_⟩ <;> dsimp only <;> omega
  · exact ⟨h.size, by omega, htight⟩

theorem RecvInv.remaining_pos {s : RecvState} (h : RecvInv s) : 0 < s.grow.remaining := by
  have hroom := h.room_grow.2.1
  rw [RecvState.remaining, grow_data]
  omega

/-- The loop goes on with more data in the grown buffer. -/
theorem RecvInv.more {s s' : RecvState} (h : RecvInv s) (hread : HeadRead s')
    (hsize : s'.bufferSize = s.grow.bufferSize) (hlonger : s.data.length ≤ s'.data.length)
    (hfits : s'.data.length ≤ s.grow.bufferSize) (hlimit : s'.data.length ≤ maxRequest) :
    RecvInv s' where
  toHeadRead := hread
  size := hsize ▸ h.room_grow.1
  fits := hsize ▸ hfits
  tight := by
    have htight := h.room_grow.2.2
    rw [hsize]
    omega
  limit := hlimit

/-- Looking for the head end after an arrival: either the request is complete, or the
locals describe the longer data and `isComplete` is the completeness test on it. -/
theorem findHeader_cases {s : RecvState} (h : HeadRead s) (bytes : Bytes) :
    let data := s.data ++ bytes
    (requestComplete data = true ∧ RecvState.findHeader { s with data := data } = none) ∨
    ∃ s', RecvState.findHeader { s with data := data } = some s' ∧ s'.data = data ∧
      s'.bufferSize = s.bufferSize ∧ s'.isComplete = requestComplete data ∧
      s'.headerEndPos = findHttpHeaderEnd data ∧
      ∀ pos, s'.headerEndPos = some pos →
        s'.contentLength = getContentLength (data.take pos) pos ∧
          s'.isChunked = isChunkedTransfer (data.take pos) pos := by
  intro data
  cases hh : s.headerEndPos with
  | some pos =>
    -- the head was found on an earlier arrival: its end and its fields stay
    have hf : findHttpHeaderEnd s.data = some pos := h.header ▸ hh
    have hf' : findHttpHeaderEnd data = some pos := findHttpHeaderEnd_append hf bytes
    have htake : data.take pos = s.data.take pos :=
      List.take_append_of_le_length (findHttpHeaderEnd_le hf).2
    obtain ⟨hlen, hch⟩ := h.fields pos hh
    have hb : isBodyless (requestMethod (s.data.take pos)) = false := by
      have := h.incomplete
      simp only [requestComplete, hf, Bool.or_eq_false_iff] at this
      exact this.1
    refine .inr ⟨{ s with data := data }, by simp [RecvState.findHeader, hh], rfl, rfl, ?_, ?_, ?_⟩
    · simp [RecvState.isComplete, requestComplete, hh, hf', htake, hb, hlen, hch]
    · exact hh.trans hf'.symm
    · intro p hp
      have : p = pos := Option.some.inj (hp.symm.trans hh)
      subst this
      rw [htake]
      exact ⟨hlen, hch⟩
  | none =>
    cases hf : findHttpHeaderEnd data with
    | none =>
      refine .inr ⟨{ s with data := data }, by simp [RecvState.findHeader, hh, hf], rfl, rfl, ?_,
        hh, ?_⟩
      · simp [RecvState.isComplete, requestComplete, hh, hf]
      · simp [hh]
    | some pos =>
      by_cases hb : isBodyless (requestMethod (data.take pos)) = true
      · exact .inl ⟨by simp [requestComplete, hf, hb], by simp [RecvState.findHeader, hf, hb]⟩
      · refine .inr ⟨{ s with
          data := data
          headerEndPos := some pos
          contentLength := getContentLength (data.take pos) pos
          isChunked := isChunkedTransfer (data.take pos) pos },
          by simp [RecvState.findHeader, hf, hb], rfl, rfl, ?_, rfl, ?_⟩
        · simp [RecvState.isComplete, requestComplete, hf, hb]
        · intro p hp
          have : pos = p := Option.some.inj hp
          subst this
          exact ⟨rfl, rfl⟩

theorem onData_cases {s : RecvState} (h : HeadRead s) (bytes : Bytes) :
    let data := s.data ++ bytes
    (requestComplete data = true ∧ ∃ s', s.onData bytes = .complete s' ∧ s'.data = data ∧
      s'.bufferSize = s.bufferSize) ∨
    (requestComplete data = false ∧ maxRequest < data.length ∧ s.onData bytes = .tooLarge) ∨
    (data.length ≤ maxRequest ∧ ∃ s', s.onData bytes = .more s' ∧ HeadRead s' ∧
      s'.data = data ∧ s'.bufferSize = s.bufferSize) := by
  intro data
  obtain ⟨hc, hf⟩ | ⟨s', hf, hd, hb, hc, hh, hfields⟩ := findHeader_cases h bytes
  · refine .inl ⟨hc, { s with data := data }, ?_, rfl, rfl⟩
    simp only [RecvState.onData, hf, data]
  · cases hcomp : requestComplete data with
    | true =>
      refine .inl ⟨rfl, s', ?_, hd, hb⟩
      simp [RecvState.onData, hf, hc, hcomp, data]
    | false =>
      have hc' : s'.isComplete = false := hc.trans hcomp
      by_cases hlim : maxRequest < data.length
      · refine .inr (.inl ⟨rfl, hlim, ?_⟩)
        simp only [RecvState.onData, hf, hc', Bool.false_eq_true, ↓reduceIte, hd]
        exact if_pos hlim
      · refine .inr (.inr ⟨by omega, s', ?_, ⟨?_, ?_, ?_⟩, hd, hb⟩)
        · simp only [RecvState.onData, hf, hc', Bool.false_eq_true, ↓reduceIte, hd]
          exact if_neg hlim
        · rw [hd]; exact hcomp
        · rw [hd]; exact hh
        · rw [hd]; exact hfields

/-- One round of the loop. -/
theorem recvLoop_eq (mode : Mode) (s : RecvState) (p : Peer Byte) :
    recvLoop mode s p =
      match p.recv mode s.grow.remaining with
      | (.data bytes, p') =>
        match s.grow.onData bytes with
        | .complete s' => (some s'.finish, p')
        | .tooLarge => (none, p')
        | .more s' => recvLoop mode s' p'
      | (.eof, p') => (some s.grow.finish, p')
      | (.again, p') => (none, p')
      | (.error, p') => (none, p') := by
  rw [recvLoop]
  generalize p.recv mode s.grow.remaining = result
  obtain ⟨_ | _ | _ | _, p'⟩ := result <;> rfl

@[simp] theorem finish_bytes (s : RecvState) : s.finish.bytes = s.data := by
  unfold RecvState.finish
  split_ifs <;> rfl

/-- One round over an arrival: it ends the request, is one too many, or the loop goes on with
the bytes received so far. -/
theorem RecvInv.recvLoop_data {mode : Mode} {s : RecvState} (hs : RecvInv s)
    {p p' : Peer Byte} {bytes : Bytes}
    (hrecv : p.recv mode s.grow.remaining = (.data bytes, p')) :
    let data := s.data ++ bytes
    (requestComplete data = true ∧
      ∃ r, recvLoop mode s p = (some r, p') ∧ r.bytes = data) ∨
    (requestComplete data = false ∧ maxRequest < data.length ∧
      recvLoop mode s p = (none, p')) ∨
    (requestComplete data = false ∧ data.length ≤ maxRequest ∧
      ∃ s', RecvInv s' ∧ s'.data = data ∧ recvLoop mode s p = recvLoop mode s' p') := by
  intro data
  have hroom := hs.room_grow.2.1
  obtain ⟨-, hlen, -⟩ := Peer.recv_data hrecv
  rw [RecvState.remaining, grow_data] at hlen
  have honData := onData_cases hs.toHeadRead.grow bytes
  simp only [grow_data] at honData
  obtain ⟨hdone, s', ho, hd, -⟩ | ⟨hopen, hlong, ho⟩ | ⟨hshort, s', ho, hread, hd, hsz⟩ := honData
  · refine .inl ⟨hdone, s'.finish, ?_, (finish_bytes s').trans hd⟩
    simp only [recvLoop_eq mode s, hrecv, ho]
  · refine .inr (.inl ⟨hopen, hlong, ?_⟩)
    simp only [recvLoop_eq mode s, hrecv, ho]
  · have hlength : s'.data.length = s.data.length + bytes.length := by
      rw [hd, List.length_append]
    have hopen : requestComplete data = false := by
      have hopen := hread.incomplete
      rwa [hd] at hopen
    refine .inr (.inr ⟨hopen, hshort, s', ?_, hd, ?_⟩)
    · exact hs.more hread hsz (by omega) (by omega) (by rw [hd]; exact hshort)
    · simp only [recvLoop_eq mode s, hrecv, ho]

/-- A `recv` on some peer of the kind `C` took the call from `q` to `n` received bytes in a
buffer of `size` bytes and left the peer `p'`. -/
def Arrives (mode : Mode) (C : Peer Byte → Prop) (size q n : Nat) (p' : Peer Byte) : Prop :=
  ∃ p bytes, C p ∧ p.recv mode (size - q) = (.data bytes, p') ∧ n = q + bytes.length

/-- The buffer at the last arrival: it had room past `q` bytes, was less than twice too big,
and took the bytes up to `n`. -/
structure LastBuffer (size q n : Nat) : Prop where
  isSize : IsBufferSize size
  lt : q < n
  fits : n ≤ size
  tight : size ≤ max 4096 (2 * q)
  limit : q ≤ maxRequest

/-- How a call over the stream `S` ends: its result, the number of bytes it took, and the
peer it leaves. -/
inductive Outcome (mode : Mode) (C : Peer Byte → Prop) (S : Bytes) (ending : Ending) :
    Option RecvBuffer → Nat → Peer Byte → Prop where
  | complete {r n q size p'} (bytes : r.bytes = S.take n)
      (done : requestComplete (S.take n) = true) (notYet : requestComplete (S.take q) = false)
      (buffer : LastBuffer size q n) (arrives : Arrives mode C size q n p') :
      Outcome mode C S ending (some r) n p'
  | refused {n q size p'} (long : maxRequest < n) (notYet : requestComplete (S.take n) = false)
      (buffer : LastBuffer size q n) (arrives : Arrives mode C size q n p') :
      Outcome mode C S ending none n p'
  | closed {r p'} (bytes : r.bytes = S) (limit : S.length ≤ maxRequest)
      (notYet : requestComplete S = false) (close : ending = .close) :
      Outcome mode C S ending (some r) S.length p'
  | broken {p'} (limit : S.length ≤ maxRequest) (notYet : requestComplete S = false)
      (noClose : ending ≠ .close) : Outcome mode C S ending none S.length p'

theorem IsBufferSize.le_of_tight {size q : Nat} (h : IsBufferSize size)
    (ht : size ≤ max 4096 (2 * q)) (hq : q ≤ maxRequest) : size ≤ 2 ^ 24 := by
  have h24 : IsBufferSize (2 ^ 24) := ⟨12, rfl⟩
  apply h.le_of_lt_two_mul h24
  have : maxRequest = 10485760 := rfl
  omega

theorem recvLoop_exhausted {mode : Mode} (C : Peer Byte → Prop) {s : RecvState} (hs : RecvInv s)
    {p : Peer Byte} (hr : p.recv mode s.grow.remaining = (p.ending.result, ⟨[], p.ending⟩)) :
    ∃ r, recvLoop mode s p = (r, ⟨[], p.ending⟩) ∧
      Outcome mode C s.data p.ending r s.data.length ⟨[], p.ending⟩ := by
  have hopen := hs.incomplete
  have hlimit := hs.limit
  rw [recvLoop_eq, hr]
  cases hend : p.ending with
  | close => exact ⟨_, rfl, .closed ((finish_bytes _).trans (grow_data s)) hlimit hopen rfl⟩
  | silent | reset => exact ⟨_, rfl, .broken hlimit hopen nofun⟩

theorem LastBuffer.of_recv {s : RecvState} (hs : RecvInv s) {bytes : Bytes} (hne : bytes ≠ [])
    (hlen : bytes.length ≤ s.grow.remaining) :
    LastBuffer s.grow.bufferSize s.data.length (s.data ++ bytes).length := by
  obtain ⟨hB, hroom, htight⟩ := hs.room_grow
  have hpos := List.length_pos_iff.mpr hne
  rw [RecvState.remaining, grow_data] at hlen
  exact { isSize := hB
          lt := by rw [List.length_append]; omega
          fits := by rw [List.length_append]; omega
          tight := htight
          limit := hs.limit }

/-- Every call without an EAGAIN ends in one of these ways, over the bytes it already
holds followed by those to come. -/
theorem recvLoop_outcome {mode : Mode} {C : Peer Byte → Prop} (hC : Peer.Steady mode C)
    {s : RecvState} (hs : RecvInv s) {p : Peer Byte} (hp : C p) :
    ∃ r n p', recvLoop mode s p = (r, p') ∧
      Outcome mode C (s.data ++ p.bytes) p.ending r n p' ∧
      n ≤ (s.data ++ p.bytes).length ∧ p'.bytes = (s.data ++ p.bytes).drop n ∧
      p'.ending = p.ending := by
  induction hsize : p.size using Nat.strong_induction_on generalizing s p with
  | _ size ih =>
  have hrem : s.grow.remaining = s.grow.bufferSize - s.data.length := by
    rw [RecvState.remaining, grow_data]
  obtain ⟨b, bs, p', hr, hlen, hbytes, hend, -⟩ | ⟨hnil, hr⟩ | ⟨hm, hnp, -⟩ :=
    Peer.recv_cases mode hs.remaining_pos.ne' p
  · -- data arrived: the loop stops, refuses, or goes on with a shorter stream
    have hS : s.data ++ p.bytes = (s.data ++ b :: bs) ++ p'.bytes := by
      rw [hbytes, List.append_assoc]
    have htake : (s.data ++ p.bytes).take (s.data ++ b :: bs).length = s.data ++ b :: bs := by
      rw [hS, List.take_left]
    have hdrop : p'.bytes = (s.data ++ p.bytes).drop (s.data ++ b :: bs).length := by
      rw [hS, List.drop_left]
    have hle : (s.data ++ b :: bs).length ≤ (s.data ++ p.bytes).length := by
      rw [hS]
      exact (List.prefix_append _ _).length_le
    have hbuf := LastBuffer.of_recv hs (List.cons_ne_nil b bs) hlen
    have harr : Arrives mode C s.grow.bufferSize s.data.length (s.data ++ b :: bs).length p' :=
      ⟨p, b :: bs, hp, hrem ▸ hr, List.length_append⟩
    obtain ⟨hc, r, hloop, hbytes'⟩ | ⟨hc, hlim, hloop⟩ | ⟨-, -, s', hs', hd, hloop⟩ :=
      hs.recvLoop_data hr
    · have hopen : requestComplete ((s.data ++ p.bytes).take s.data.length) = false := by
        rw [List.take_left]
        exact hs.incomplete
      exact ⟨some r, _, p', hloop, .complete (hbytes'.trans htake.symm) (by rw [htake]; exact hc)
        hopen hbuf harr, hle, hdrop, hend⟩
    · exact ⟨none, _, p', hloop, .refused hlim (by rw [htake]; exact hc) hbuf harr, hle, hdrop,
        hend⟩
    · obtain ⟨r, n, q, he, ho', hn, hq, hqe⟩ :=
        ih _ (hsize ▸ Peer.recv_size_lt hr) hs' (hC.recv hp hr) rfl
      rw [hd, ← hS] at ho' hn hq
      rw [hend] at ho' hqe
      exact ⟨r, n, q, hloop.trans he, ho', hn, hq, hqe⟩
  · obtain ⟨r, hloop, ho⟩ := recvLoop_exhausted C hs hr
    rw [hnil, List.append_nil]
    exact ⟨r, _, _, hloop, ho, le_rfl, (List.drop_length (l := s.data)).symm, rfl⟩
  · exact absurd hnp (by simpa [hm] using hC.noPause hp)

theorem recvRequest_outcome {mode : Mode} {C : Peer Byte → Prop} (hC : Peer.Steady mode C)
    {p : Peer Byte} (hp : C p) :
    ∃ r n p', recvRequest mode p = (r, p') ∧ Outcome mode C p.bytes p.ending r n p' ∧
      n ≤ p.bytes.length ∧ p'.bytes = p.bytes.drop n ∧ p'.ending = p.ending :=
  recvLoop_outcome hC recvInv_init hp

/-- `T` is the length of the shortest complete prefix of the stream. -/
structure FrameEnd (S : Bytes) (T : Nat) : Prop where
  le : T ≤ S.length
  done : requestComplete (S.take T) = true
  first : ∀ q < T, requestComplete (S.take q) = false

theorem FrameEnd.le_of_done {S : Bytes} {T n : Nat} (h : FrameEnd S T)
    (hn : requestComplete (S.take n) = true) : T ≤ n := by
  by_contra hlt
  simp [h.first n (by omega)] at hn

theorem FrameEnd.lt_of_notYet {S : Bytes} {T q : Nat} (h : FrameEnd S T)
    (hq : requestComplete (S.take q) = false) : q < T := by
  by_contra hle
  simp [requestComplete_take_mono (by omega : T ≤ q) h.done] at hq

theorem FrameEnd.stream_done {S : Bytes} {T : Nat} (h : FrameEnd S T) :
    requestComplete S = true := by
  have := requestComplete_take_mono h.le h.done
  rwa [List.take_length] at this

theorem exists_frameEnd {S : Bytes} (h : requestComplete S = true) : ∃ T, FrameEnd S T := by
  have hex : ∃ n, requestComplete (S.take n) = true := ⟨S.length, by rwa [List.take_length]⟩
  refine ⟨Nat.find hex, ?_, Nat.find_spec hex, fun q hq => ?_⟩
  · exact Nat.find_le (by rwa [List.take_length])
  · simpa using Nat.find_min hex hq

/-- A call over a stream that is one whole frame takes all of it, however it is cut, up to one
byte past the limit. -/
theorem recvRequest_whole {mode : Mode} {C : Peer Byte → Prop} (hC : Peer.Steady mode C)
    {p : Peer Byte} (hp : C p) (hT : FrameEnd p.bytes p.bytes.length)
    (hlimit : p.bytes.length ≤ maxRequest + 1) :
    ∃ r p', recvRequest mode p = (some r, p') ∧ r.bytes = p.bytes ∧ p'.bytes = [] := by
  obtain ⟨r, n, p', hr, ho, hn, hp', -⟩ := recvRequest_outcome hC hp
  cases ho with
  | complete bytes done _ _ _ =>
    have : n = p.bytes.length := Nat.le_antisymm hn (hT.le_of_done done)
    subst this
    exact ⟨_, p', hr, by simpa using bytes, by simpa using hp'⟩
  | refused long notYet _ _ =>
    have := hT.lt_of_notYet notYet
    omega
  | closed _ _ notYet _ => simp [hT.stream_done] at notYet
  | broken _ notYet _ => simp [hT.stream_done] at notYet

/-- Where a `recv` of the loop can end: at the end of an arrival or of the buffer. -/
def Stop (p : Peer Byte) (n : Nat) : Prop := n ∈ arrivalEnds p.arrivals ∨ IsBufferSize n

/-- The next request is read up to offset `n`: the first stop at which it is complete, with no
stop past the limit before it, or the end of a stream that the peer closes. -/
inductive NextRequest (p : Peer Byte) : Nat → Prop where
  | complete {n} (stop : Stop p n) (done : requestComplete (p.bytes.take n) = true)
      (first : ∀ m < n, Stop p m → requestComplete (p.bytes.take m) = false ∧ m ≤ maxRequest) :
      NextRequest p n
  | closed (notYet : requestComplete p.bytes = false) (limit : p.bytes.length ≤ maxRequest)
      (close : p.ending = .close) : NextRequest p p.bytes.length

theorem requestComplete_of_take {s : Bytes} {n : Nat} (h : requestComplete (s.take n) = true) :
    requestComplete s = true := by
  have := requestComplete_append h (s.drop n)
  rwa [List.take_append_drop] at this

theorem NextRequest.unique {p : Peer Byte} {m n : Nat} (hm : NextRequest p m)
    (hn : NextRequest p n) : m = n := by
  cases hm with
  | complete stop done first =>
    cases hn with
    | complete stop' done' first' =>
      rcases Nat.lt_trichotomy m n with hlt | rfl | hlt
      · simp [(first' m hlt stop).1] at done
      · rfl
      · simp [(first n hlt stop').1] at done'
    | closed notYet => simp [requestComplete_of_take done] at notYet
  | closed notYet =>
    cases hn with
    | complete stop' done' first' => simp [requestComplete_of_take done'] at notYet
    | closed => rfl

/-- A blocking `recv` of the loop takes the bytes up to the next stop. -/
theorem RecvInv.recv_stop {s : RecvState} (hs : RecvInv s) {p : Peer Byte} {q : Nat}
    (hq : s.data.length = q) (hne : (p.drop q).bytes ≠ []) :
    ∃ n, (p.drop q).recv .blocking s.grow.remaining =
        (.data ((p.bytes.drop q).take (n - q)), p.drop n) ∧
      q < n ∧ n ≤ p.bytes.length ∧ n ≤ s.grow.bufferSize ∧ Stop p n ∧
      ∀ k < n, Stop p k → k ≤ q := by
  obtain ⟨hB, hroom, htight⟩ := hs.room_grow
  have hrem : s.grow.remaining = s.grow.bufferSize - q := by
    rw [RecvState.remaining, grow_data, hq]
  obtain ⟨m, hr, hpos, hlen, hspace, hstop, hfirst⟩ :=
    Peer.recv_blocking hs.remaining_pos.ne' hne
  rw [Peer.drop_drop, Peer.bytes_drop] at hr
  rw [Peer.bytes_drop, List.length_drop] at hlen
  rw [hrem] at hspace hstop
  refine ⟨q + m, by rwa [Nat.add_sub_cancel_left], by omega, by omega, by omega, ?_, ?_⟩
  · obtain rfl | hend := hstop
    · exact .inr (by rwa [show q + (s.grow.bufferSize - q) = s.grow.bufferSize by omega])
    · exact .inl (mem_arrivalEnds_drop.mp hend)
  · intro k hlt hk
    by_contra hgt
    rcases hk with hend | hsize
    · have hmem : k - q ∈ arrivalEnds (p.drop q).arrivals := by
        apply mem_arrivalEnds_drop.mpr
        rwa [show q + (k - q) = k by omega]
      have := hfirst _ hmem (by omega)
      omega
    · -- the buffer has the smallest size with room
      have hmin : 4096 ≤ k := by
        obtain ⟨j, rfl⟩ := hsize
        have := Nat.two_pow_pos j
        omega
      have := hB.le_of_lt_two_mul hsize (by omega)
      omega

/-- With nothing left, a blocking call returns what was received if the peer closes. -/
theorem RecvInv.recvLoop_end {s : RecvState} (hs : RecvInv s) {p rest : Peer Byte}
    (hdata : s.data = p.bytes) (hnil : rest.bytes = []) (hending : rest.ending = p.ending) :
    (∃ r p', recvLoop .blocking s rest = (some r, p') ∧ NextRequest p p.bytes.length ∧
      r.bytes = p.bytes ∧ p'.bytes = []) ∨
    (∃ p', recvLoop .blocking s rest = (none, p')) ∧ ∀ n, ¬ NextRequest p n := by
  have hrem : s.grow.remaining ≠ 0 := hs.remaining_pos.ne'
  have hopen : requestComplete p.bytes = false := hdata ▸ hs.incomplete
  have hrecv : rest.recv .blocking s.grow.remaining = (p.ending.result, ⟨[], p.ending⟩) := by
    obtain ⟨b, bs, p', -, -, hb, -⟩ | ⟨-, hr⟩ | ⟨hm, -⟩ := Peer.recv_cases .blocking hrem rest
    · rw [hnil] at hb
      cases hb
    · rw [hr, hending]
    · cases hm
  have hnever : p.ending ≠ .close → ∀ n, ¬ NextRequest p n := by
    intro hend n hn
    cases hn with
    | complete stop done first => simp [requestComplete_of_take done] at hopen
    | closed notYet limit close => exact hend close
  cases hend : p.ending with
  | close =>
    rw [hend] at hrecv
    refine .inl ⟨s.grow.finish, ⟨[], .close⟩, ?_, .closed hopen (hdata ▸ hs.limit) hend, ?_, rfl⟩
    · rw [recvLoop_eq, hrecv]
      rfl
    · rw [finish_bytes, grow_data, hdata]
  | silent | reset =>
    rw [hend] at hrecv
    refine .inr ⟨⟨⟨[], p.ending⟩, ?_⟩, hnever (by simp [hend])⟩
    rw [recvLoop_eq, hrecv, hend]
    rfl

/-- A blocking call from any point of its loop returns the next request and leaves what
follows it. -/
theorem recvLoop_blocking {s : RecvState} (hs : RecvInv s) {p : Peer Byte} {q : Nat}
    (hq : s.data.length = q) (hdata : s.data = p.bytes.take q) :
    (∃ r n p', recvLoop .blocking s (p.drop q) = (some r, p') ∧ NextRequest p n ∧
      r.bytes = p.bytes.take n ∧ (p' = p.drop n ∨ p'.bytes = [] ∧ (p.drop n).bytes = [])) ∨
    (∃ p', recvLoop .blocking s (p.drop q) = (none, p')) ∧ ∀ n, ¬ NextRequest p n := by
  induction hsize : (p.drop q).size using Nat.strong_induction_on generalizing s q with
  | _ size ih =>
  by_cases hnil : (p.drop q).bytes = []
  · have hall : s.data = p.bytes := by
      rw [Peer.bytes_drop, List.drop_eq_nil_iff] at hnil
      rw [hdata, List.take_of_length_le hnil]
    obtain ⟨r, p', hr, hnext, hbytes, hp'⟩ | hnone := hs.recvLoop_end hall hnil rfl
    · refine .inl ⟨r, _, p', hr, hnext, ?_, .inr ⟨hp', ?_⟩⟩
      · rw [hbytes, List.take_length]
      · rw [Peer.bytes_drop, List.drop_length]
    · exact .inr hnone
  · -- data arrived up to the next stop
    obtain ⟨hB, -, htight⟩ := hs.room_grow
    have hopen : requestComplete (p.bytes.take q) = false := hdata ▸ hs.incomplete
    have hlimit : q ≤ maxRequest := hq ▸ hs.limit
    obtain ⟨n, hr, hgt, hn, hfits, hstop, hnext⟩ := hs.recv_stop hq hnil
    have hgot : s.data ++ (p.bytes.drop q).take (n - q) = p.bytes.take n := by
      rw [hdata, ← List.take_add, Nat.add_sub_cancel' (Nat.le_of_lt hgt)]
    have hbefore : ∀ k < n, Stop p k →
        requestComplete (p.bytes.take k) = false ∧ k ≤ maxRequest := by
      intro k hlt hk
      have hle := hnext k hlt hk
      refine ⟨?_, hle.trans hlimit⟩
      by_contra hdone
      simp [requestComplete_take_mono hle (by simpa using hdone)] at hopen
    have hround := hs.recvLoop_data hr
    rw [hgot] at hround
    obtain ⟨hc, r, hloop, hbytes⟩ | ⟨hc, hlong, hloop⟩ | ⟨-, -, s', hs', hd, hloop⟩ := hround
    · exact .inl ⟨r, n, p.drop n, hloop, .complete hstop hc hbefore, hbytes, .inl rfl⟩
    · refine .inr ⟨⟨p.drop n, hloop⟩, ?_⟩
      rw [List.length_take, Nat.min_eq_left hn] at hlong
      intro n' hn'
      cases hn' with
      | complete stop done first =>
        have hlt : n < n' := by
          by_contra hle
          simp [requestComplete_take_mono (by omega : n' ≤ n) done] at hc
        have := (first n hlt hstop).2
        omega
      | closed notYet limit close => omega
    · have hlen : s'.data.length = n := by
        rw [hd, List.length_take, Nat.min_eq_left hn]
      have hlt : (p.drop n).size < size := by
        rw [← hsize, Peer.size, Peer.size, Peer.bytes_drop, Peer.bytes_drop, List.length_drop,
          List.length_drop]
        omega
      rw [hloop]
      exact ih _ hlt hs' hlen hd rfl

theorem recvRequest_blocking (p : Peer Byte) :
    (∃ r n p', recvRequest .blocking p = (some r, p') ∧ NextRequest p n ∧
      r.bytes = p.bytes.take n ∧ (p' = p.drop n ∨ p'.bytes = [] ∧ (p.drop n).bytes = [])) ∨
    (∃ p', recvRequest .blocking p = (none, p')) ∧ ∀ n, ¬ NextRequest p n := by
  have h := recvLoop_blocking recvInv_init (p := p) (q := 0) rfl rfl
  rwa [Peer.drop_zero] at h

theorem NextRequest.recvRequest {p : Peer Byte} {n : Nat} (h : NextRequest p n) :
    ∃ r p', recvRequest .blocking p = (some r, p') ∧ r.bytes = p.bytes.take n ∧
      (p' = p.drop n ∨ p'.bytes = [] ∧ (p.drop n).bytes = []) := by
  obtain ⟨r, m, p', hr, hm, hbytes, hp'⟩ | ⟨-, hnever⟩ := recvRequest_blocking p
  · rw [hm.unique h] at hbytes hp'
    exact ⟨r, p', hr, hbytes, hp'⟩
  · exact absurd h (hnever n)

theorem recvLoop_size_le {mode : Mode} {s : RecvState} {p p' : Peer Byte}
    {r : Option RecvBuffer} (h : recvLoop mode s p = (r, p')) : p'.size ≤ p.size := by
  induction hsize : p.size using Nat.strong_induction_on generalizing s p with
  | _ size ih =>
  rw [recvLoop_eq] at h
  cases hr : p.recv mode s.grow.remaining with
  | mk res q =>
    have hq := Peer.recv_size_le hr
    cases res with
    | data bytes =>
      have hlt := Peer.recv_size_lt hr
      cases ho : s.grow.onData bytes with
      | complete s' =>
        simp only [hr, ho, Prod.mk.injEq] at h
        rw [← h.2]
        omega
      | tooLarge =>
        simp only [hr, ho, Prod.mk.injEq] at h
        rw [← h.2]
        omega
      | more s' =>
        simp only [hr, ho] at h
        have := ih q.size (by omega) h rfl
        omega
    | eof | again | error =>
      simp only [hr, Prod.mk.injEq] at h
      rw [← h.2]
      omega

theorem recvRequest_size_lt {mode : Mode} {p p' : Peer Byte} {r : RecvBuffer}
    (hp : p.bytes ≠ []) (h : recvRequest mode p = (some r, p')) : p'.size < p.size := by
  have hrem : (({} : RecvState).grow.remaining) ≠ 0 := by decide
  unfold recvRequest at h
  rw [recvLoop_eq] at h
  obtain ⟨b, bs, q, hr, -⟩ | ⟨hnil, -⟩ | ⟨-, -, q, hr, -⟩ := Peer.recv_cases mode hrem p
  · have hlt := Peer.recv_size_lt hr
    rw [hr] at h
    cases ho : ({} : RecvState).grow.onData (b :: bs) with
    | complete s' =>
      simp only [ho, Prod.mk.injEq] at h
      rwa [← h.2]
    | tooLarge => simp [ho] at h
    | more s' =>
      simp only [ho] at h
      exact (recvLoop_size_le h).trans_lt hlt
  · exact absurd hnil hp
  · simp [hr] at h

theorem recvRequest_of_nil {mode : Mode} {p p' : Peer Byte} {r : RecvBuffer}
    (hp : p.bytes = []) (h : recvRequest mode p = (some r, p')) : r.bytes = [] := by
  have hrem : (({} : RecvState).grow.remaining) ≠ 0 := by decide
  unfold recvRequest at h
  rw [recvLoop_eq] at h
  obtain ⟨b, bs, q, -, -, hb, -⟩ | ⟨-, hr⟩ | ⟨-, -, q, hr, -⟩ := Peer.recv_cases mode hrem p
  · rw [hp] at hb
    cases hb
  · cases hend : p.ending with
    | close =>
      simp only [hr, hend, Ending.result, Prod.mk.injEq, Option.some.injEq] at h
      rw [← h.1]
      rfl
    | silent | reset => simp [hr, hend, Ending.result] at h
  · simp [hr] at h

theorem recvRequest_size_lt_of_bytes {mode : Mode} {p p' : Peer Byte} {r : RecvBuffer}
    (hr : r.bytes ≠ []) (h : recvRequest mode p = (some r, p')) : p'.size < p.size :=
  recvRequest_size_lt (fun hp => hr (recvRequest_of_nil hp h)) h

section Head
variable {head : Bytes} (hend : findHttpHeaderEnd head = some head.length)
include hend

theorem requestComplete_take_head {n : Nat} (hn : n < head.length) :
    requestComplete (head.take n) = false := by
  have hnone : findHttpHeaderEnd (head.take n) = none := by
    cases hf : findHttpHeaderEnd (head.take n) with
    | none => rfl
    | some pos =>
      have happ := findHttpHeaderEnd_append hf (head.drop n)
      rw [List.take_append_drop, hend] at happ
      have hle := (findHttpHeaderEnd_le hf).2
      rw [List.length_take] at hle
      cases happ
      omega
  rw [requestComplete, hnone]

theorem requestComplete_head (body : Bytes) :
    requestComplete (head ++ body) = (isBodyless (requestMethod head) ||
      bodyComplete (getContentLength head head.length) (isChunkedTransfer head head.length)
        head.length (head ++ body)) := by
  rw [requestComplete, findHttpHeaderEnd_append hend]
  simp only [List.take_left]

theorem frameEnd_bodyless (hmethod : isBodyless (requestMethod head) = true) :
    FrameEnd head head.length where
  le := le_rfl
  done := by
    have h := requestComplete_head hend []
    rwa [hmethod, Bool.true_or, List.append_nil, ← List.take_length (l := head)] at h
  first := fun _ hq => requestComplete_take_head hend hq

end Head

/-- A header line `Content-Length:` with the decimal value `n` stands in the head, and the
name does not occur before it. -/
def DeclaresLength (head : Bytes) (n : Nat) : Prop :=
  ∃ pre ows digits ows' post,
    head = pre ++ crlf ++ ascii "Content-Length:" ++ ows ++ digits ++ ows' ++ crlf ++ post ∧
    strstr head (ascii "Content-Length:") = some (pre.length + 2) ∧
    (∀ b ∈ ows ++ ows', b = 32 ∨ b = 9) ∧ digits ≠ [] ∧ (∀ b ∈ digits, isdigit b = true) ∧
    decimal digits = n

theorem getContentLength_of_declares {head : Bytes} {n : Nat} (hnul : 0 ∉ head)
    (h : DeclaresLength head n) (hn : n < 2 ^ 31) : getContentLength head head.length = n := by
  obtain ⟨pre, ows, digits, ows', post, hhead, hfirst, hows, hne, hdig, rfl⟩ := h
  have hlen := strstr_end_le (by decide) hfirst
  have h15 : (ascii "Content-Length:").length = 15 := rfl
  have hdrop : head.drop (pre.length + 2 + 15) = ows ++ (digits ++ (ows' ++ (crlf ++ post))) := by
    have hpre : pre.length + 2 + 15 = (pre ++ crlf ++ ascii "Content-Length:").length := by
      simp [h15, crlf]
    have hsplit : head = (pre ++ crlf ++ ascii "Content-Length:") ++
        (ows ++ (digits ++ (ows' ++ (crlf ++ post)))) := by
      rw [hhead]
      simp only [List.append_assoc]
    rw [hpre, hsplit, List.drop_left]
  have hspace : ∀ b ∈ ows ++ ows', isspace b = true := by
    intro b hb
    rcases hows b hb with rfl | rfl <;> rfl
  have hdigits : ∀ b ∈ (digits ++ (ows' ++ (crlf ++ post))).head?, isspace b = false := by
    intro b hb
    cases digits with
    | nil => exact absurd rfl hne
    | cons d ds =>
      cases hb
      exact isspace_of_isdigit (hdig b (by simp))
  have hstop : ∀ b ∈ (ows' ++ (crlf ++ post)).head?, isdigit b = false := by
    intro b hb
    cases ows' with
    | nil =>
      cases hb
      rfl
    | cons x xs =>
      cases hb
      rcases hows b (by simp) with rfl | rfl <;> rfl
  unfold getContentLength
  simp only [cstr_eq_self hnul, hfirst]
  rw [if_neg (by omega), List.take_length, hdrop,
    dropWhile_append_stop (fun b hb => hspace b (by simp [hb])) hdigits,
    takeWhile_append_stop hdig hstop, decimalInt32_eq, int32_eq_self hn]

theorem isBodyless_requestMethod {head : Bytes} (hnul : 0 ∉ head)
    (h : isBodyless (head.takeWhile (· ≠ 32)) = false) :
    isBodyless (requestMethod head) = false := by
  unfold requestMethod
  rw [cstr_eq_self hnul]
  cases hs : strchr head 32 with
  | none => rfl
  | some n =>
    dsimp only
    split_ifs
    · rw [take_strchr hs]
      exact h
    · rfl

theorem requestComplete_declared {head body : Bytes} (hnul : 0 ∉ head)
    (hend : findHttpHeaderEnd head = some head.length)
    (hmethod : isBodyless (head.takeWhile (· ≠ 32)) = false)
    (hlen : DeclaresLength head body.length) (hpos : 0 < body.length)
    (hbound : body.length < 2 ^ 31) (n : Nat) :
    requestComplete ((head ++ body).take n) = decide (head.length + body.length ≤ n) := by
  rcases Nat.lt_or_ge n head.length with hn | hn
  · rw [List.take_append_of_le_length hn.le, requestComplete_take_head hend hn]
    simp only [Bool.false_eq, decide_eq_false_iff_not]
    omega
  · have htake : (head ++ body).take n = head ++ body.take (n - head.length) := by
      rw [List.take_append, List.take_of_length_le hn]
    rw [htake, requestComplete_head hend, isBodyless_requestMethod hnul hmethod, Bool.false_or,
      getContentLength_of_declares hnul hlen hbound, bodyComplete]
    rw [if_pos (by omega), decide_eq_decide]
    simp only [List.length_append, List.length_take]
    omega

/-- Content-Length framing is exact: a request with a body of the declared length is
returned whole, with the NUL after it, and only once all of it has arrived, however it is
cut into arrivals. -/
theorem content_length_framing_exact (mode : Mode) (p : Peer Byte) (head body : Bytes)
    (hp : mode = .blocking ∨ p.Pauseless) (hbytes : p.bytes = head ++ body)
    (hnul : 0 ∉ head) (hend : findHttpHeaderEnd head = some head.length)
    (hmethod : isBodyless (head.takeWhile (· ≠ 32)) = false)
    (hlen : DeclaresLength head body.length) (hpos : 0 < body.length)
    (hbound : body.length < 2 ^ 31) (hlimit : (head ++ body).length ≤ maxRequest) :
    ∃ r p', recvRequest mode p = (some r, p') ∧ r.memory = head ++ body ++ [0] ∧
      p'.bytes = [] := by
  have hcomp := requestComplete_declared hnul hend hmethod hlen hpos hbound
  have hframe : FrameEnd p.bytes p.bytes.length := by
    rw [hbytes]
    refine ⟨le_rfl, ?_, fun q hq => ?_⟩
    · rw [hcomp]
      simp
    · rw [hcomp]
      simp only [List.length_append] at hq
      simpa using hq
  rw [← hbytes] at hlimit ⊢
  obtain ⟨r, p', hr, hb, hp'⟩ : ∃ r p', recvRequest mode p = (some r, p') ∧
      r.bytes = p.bytes ∧ p'.bytes = [] := by
    rcases hp with rfl | hp
    · exact recvRequest_whole Peer.steady_blocking trivial hframe (by omega)
    · exact recvRequest_whole (Peer.steady_pauseless mode) hp hframe (by omega)
  exact ⟨r, p', hr, by rw [RecvBuffer.memory, hb], hp'⟩

theorem content_length_framing_exact_post :
    let head := ascii "POST /f HTTP/1.1\r\nContent-Length: 3\r\n\r\n"
    ∃ r p', recvRequest .nonblocking
        (.ofSegments [head.take 20, head.drop 20 ++ [65], [0, 66]]) = (some r, p') ∧
      r.memory = head ++ [65, 0, 66] ++ [0] ∧ p'.bytes = [] :=
  content_length_framing_exact _ _ _ [65, 0, 66] (.inr (Peer.pauseless_ofSegments _))
    (by decide +kernel) (by decide +kernel) (by decide +kernel) (by decide +kernel)
    ⟨ascii "POST /f HTTP/1.1", [32], [51], [], crlf, by decide +kernel, by decide +kernel,
      by simp, by decide, by decide +kernel, by decide⟩
    (by decide) (by decide) (by decide +kernel)

end MinhServer
