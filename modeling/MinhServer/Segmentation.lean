import MinhServer.Framing

namespace MinhServer
open CString Wire

/-- The buffers of successive calls until nothing is left to receive. A NULL is the last
result: the server closes the connection on it. -/
def recvAll (mode : Mode) (p : Peer Byte) : List (Option Bytes) :=
  if _hp : p.bytes = [] then []
  else
    match _h : recvRequest mode p with
    | (none, _) => [none]
    | (some r, p') => some r.bytes :: recvAll mode p'
termination_by p.size
decreasing_by exact recvRequest_size_lt _hp _h

theorem recvAll_nil {mode : Mode} {p : Peer Byte} (hp : p.bytes = []) : recvAll mode p = [] := by
  rw [recvAll, dif_pos hp]

theorem recvAll_none {mode : Mode} {p p' : Peer Byte} (hp : p.bytes ≠ [])
    (h : recvRequest mode p = (none, p')) : recvAll mode p = [none] := by
  rw [recvAll, dif_neg hp]
  split <;> simp_all

theorem recvAll_some {mode : Mode} {p p' : Peer Byte} {r : RecvBuffer} (hp : p.bytes ≠ [])
    (h : recvRequest mode p = (some r, p')) :
    recvAll mode p = some r.bytes :: recvAll mode p' := by
  rw [recvAll, dif_neg hp]
  split <;> simp_all

/-- However the stream is cut, the same buffers come back. -/
def SegmentationIndependent (S : Bytes) : Prop :=
  ∀ (mode : Mode) (segs segs' : List Bytes), segs.flatten = S → segs'.flatten = S →
    recvAll mode (.ofSegments segs) = recvAll mode (.ofSegments segs')

/-- Every frame of the stream that is followed by further bytes fills a receive buffer, and
no frame ends between the size limit and the largest buffer. -/
inductive Aligned : Bytes → Prop where
  | incomplete {S} (open_ : requestComplete S = false) : Aligned S
  | overlong {S T} (frame : FrameEnd S T) (long : 2 ^ 24 < T) : Aligned S
  | last {S} (frame : FrameEnd S S.length) (limit : S.length ≤ maxRequest + 1) : Aligned S
  | frame {S T} (frame : FrameEnd S T) (size : IsBufferSize T) (limit : T ≤ maxRequest + 1)
      (rest : Aligned (S.drop T)) : Aligned S

theorem stream_ne_nil {p : Peer Byte} {T : Nat} (h : FrameEnd p.bytes T) : p.bytes ≠ [] := by
  intro hnil
  have := h.stream_done
  rw [hnil] at this
  cases this

theorem LastBuffer.le_max {size q n : Nat} (h : LastBuffer size q n) : n ≤ 2 ^ 24 :=
  h.fits.trans (h.isSize.le_of_tight h.tight h.limit)

/-- The buffers of the stream, for every kind of cut. -/
def ReceivedAs (S : Bytes) (l : List (Option Bytes)) : Prop :=
  ∀ (mode : Mode) (C : Peer Byte → Prop) (p : Peer Byte), Peer.Steady mode C → C p →
    p.bytes = S → p.ending = .close → recvAll mode p = l

section Streams
variable {S : Bytes} {T : Nat}

theorem receivedAs_incomplete (hopen : requestComplete S = false) :
    ReceivedAs S
      (if S = [] then [] else if S.length ≤ maxRequest then [some S] else [none]) := by
  intro mode C p hC hp hS hend
  by_cases hnil : S = []
  · rw [if_pos hnil, recvAll_nil (hS.trans hnil)]
  · have hne : p.bytes ≠ [] := hS ▸ hnil
    obtain ⟨r, n, p', hr, ho, hn, hrest, -⟩ := recvRequest_outcome hC hp
    rw [hS, hend] at ho
    rw [hS] at hn hrest
    rw [if_neg hnil]
    cases ho with
    | complete _ done _ _ _ =>
      have hdone := requestComplete_take_mono hn done
      rw [List.take_length, hopen] at hdone
      cases hdone
    | refused long _ _ _ => rw [if_neg (by omega), recvAll_none hne hr]
    | closed bytes limit _ _ =>
      rw [if_pos limit, recvAll_some hne hr, bytes, recvAll_nil (by simpa using hrest)]
    | broken _ _ noClose => exact absurd rfl noClose

theorem receivedAs_overlong (hT : FrameEnd S T) (hlong : 2 ^ 24 < T) : ReceivedAs S [none] := by
  intro mode C p hC hp hS hend
  obtain ⟨r, n, p', hr, ho, hn, hrest, -⟩ := recvRequest_outcome hC hp
  rw [hS, hend] at ho
  cases ho with
  | complete _ done _ buffer _ =>
    have hle := hT.le_of_done done
    have hmax := buffer.le_max
    omega
  | refused _ _ _ _ => exact recvAll_none (stream_ne_nil (hS ▸ hT)) hr
  | closed _ _ notYet _ => simp [hT.stream_done] at notYet
  | broken _ notYet _ => simp [hT.stream_done] at notYet

theorem receivedAs_last (hT : FrameEnd S S.length) (hlimit : S.length ≤ maxRequest + 1) :
    ReceivedAs S [some S] := by
  intro mode C p hC hp hS hend
  obtain ⟨r, n, p', hr, ho, hn, hrest, -⟩ := recvRequest_outcome hC hp
  have hne := stream_ne_nil (hS ▸ hT : FrameEnd p.bytes S.length)
  rw [hS, hend] at ho
  rw [hS] at hn hrest
  cases ho with
  | complete bytes done _ _ _ =>
    have hall : n = S.length := Nat.le_antisymm hn (hT.le_of_done done)
    subst hall
    rw [recvAll_some hne hr, bytes, List.take_length, recvAll_nil (by simpa using hrest)]
  | refused long notYet _ _ =>
    have hlt := hT.lt_of_notYet notYet
    omega
  | closed _ _ notYet _ => simp [hT.stream_done] at notYet
  | broken _ notYet _ => simp [hT.stream_done] at notYet

theorem receivedAs_frame {l : List (Option Bytes)} (hT : FrameEnd S T) (hsize : IsBufferSize T)
    (hlimit : T ≤ maxRequest + 1) (hl : ReceivedAs (S.drop T) l) :
    ReceivedAs S (some (S.take T) :: l) := by
  intro mode C p hC hp hS hend
  obtain ⟨r, n, p', hr, ho, hn, hrest, hend'⟩ := recvRequest_outcome hC hp
  have hne := stream_ne_nil (hS ▸ hT : FrameEnd p.bytes T)
  rw [hS, hend] at ho
  rw [hS] at hn hrest
  cases ho with
  | complete bytes done notYet buffer arrives =>
    have hle := hT.le_of_done done
    have hq := hT.lt_of_notYet notYet
    have hmin : 4096 ≤ T := by
      obtain ⟨k, rfl⟩ := hsize
      exact Nat.le_mul_of_pos_right _ (Nat.two_pow_pos k)
    have htight := buffer.tight
    have hfit := buffer.isSize.le_of_lt_two_mul hsize (by omega)
    have hall : n = T := Nat.le_antisymm (buffer.fits.trans hfit) hle
    subst hall
    obtain ⟨p₀, bs, hp₀, hrecv, -⟩ := arrives
    have hsteady : C p' := hC.recv hp₀ hrecv
    rw [recvAll_some hne hr, bytes, hl mode C p' hC hsteady hrest (hend'.trans hend)]
  | refused long notYet _ _ =>
    have hlt := hT.lt_of_notYet notYet
    omega
  | closed _ _ notYet _ => simp [hT.stream_done] at notYet
  | broken _ notYet _ => simp [hT.stream_done] at notYet

theorem Aligned.receivedAs (h : Aligned S) : ∃ l, ReceivedAs S l := by
  induction h with
  | incomplete hopen => exact ⟨_, receivedAs_incomplete hopen⟩
  | overlong frame long => exact ⟨_, receivedAs_overlong frame long⟩
  | last frame limit => exact ⟨_, receivedAs_last frame limit⟩
  | frame frame size limit rest ih =>
    obtain ⟨l, hl⟩ := ih
    exact ⟨_, receivedAs_frame frame size limit hl⟩

end Streams

theorem recvRequest_trickle (mode : Mode) {p : Peer Byte} {T : Nat} (hp : p.Trickle)
    (hT : FrameEnd p.bytes T) :
    (T ≤ maxRequest + 1 ∧ ∃ r p', recvRequest mode p = (some r, p') ∧ r.bytes = p.bytes.take T ∧
      p'.bytes = p.bytes.drop T ∧ p'.Trickle ∧ p'.ending = p.ending) ∨
    ∃ p', recvRequest mode p = (none, p') := by
  obtain ⟨r, n, p', hr, ho, hn, hrest, hend⟩ := recvRequest_outcome (Peer.steady_trickle mode) hp
  cases ho with
  | complete bytes done notYet buffer arrives =>
    obtain ⟨p₀, bs, hp₀, hrecv, rfl⟩ := arrives
    obtain ⟨hp', hbs⟩ := Peer.Trickle.recv hp₀ hrecv
    have hle := hT.le_of_done done
    have hq := hT.lt_of_notYet notYet
    have hlim := buffer.limit
    have hlt := buffer.lt
    have : T = _ + bs.length := Nat.le_antisymm hle (by omega)
    subst this
    exact .inl ⟨by omega, _, p', hr, bytes, hrest, hp', hend⟩
  | refused _ _ _ _ => exact .inr ⟨p', hr⟩
  | closed _ _ notYet _ => simp [hT.stream_done] at notYet
  | broken _ _ _ => exact .inr ⟨p', hr⟩

/-- In one lump, a call takes a full buffer or everything. -/
theorem recvRequest_lump (mode : Mode) {p : Peer Byte} {T : Nat} (hp : p.Lump)
    (hT : FrameEnd p.bytes T) (hmax : T ≤ 2 ^ 24) :
    ∃ n r p', recvRequest mode p = (some r, p') ∧ r.bytes = p.bytes.take n ∧ n ≤ p.bytes.length ∧
      T ≤ n ∧ (IsBufferSize n ∨ n = p.bytes.length) ∧ p'.bytes = p.bytes.drop n ∧ p'.Lump ∧
      p'.ending = p.ending := by
  obtain ⟨r, n, p', hr, ho, hn, hrest, hend⟩ := recvRequest_outcome (Peer.steady_lump mode) hp
  have harrives : ∀ {size q}, LastBuffer size q n → Arrives mode Peer.Lump size q n p' →
      (IsBufferSize n ∨ n = p.bytes.length) ∧ p'.Lump := by
    rintro size q buffer ⟨p₀, bs, hp₀, hrecv, rfl⟩
    obtain ⟨hp', hfull | hall⟩ := Peer.Lump.recv hp₀ hrecv
    · have := buffer.lt
      have : q + bs.length = size := by omega
      exact ⟨.inl (this ▸ buffer.isSize), hp'⟩
    · rw [hrest, List.drop_eq_nil_iff] at hall
      exact ⟨.inr (by omega), hp'⟩
  cases ho with
  | complete bytes done _ buffer arrives =>
    obtain ⟨hpt, hp'⟩ := harrives buffer arrives
    exact ⟨n, _, p', hr, bytes, hn, hT.le_of_done done, hpt, hrest, hp', hend⟩
  | refused long notYet buffer arrives =>
    -- past the limit a full buffer has 16 MiB, and then the frame would not fit
    have hlt := hT.lt_of_notYet notYet
    have h24 : IsBufferSize (2 ^ 24) := ⟨12, rfl⟩
    rcases (harrives buffer arrives).1 with hn' | hn'
    · have : maxRequest = 10485760 := rfl
      have := h24.le_of_lt_two_mul hn' (by omega)
      omega
    · have := hT.le
      omega
  | closed _ _ notYet _ => simp [hT.stream_done] at notYet
  | broken _ notYet _ => simp [hT.stream_done] at notYet

theorem aligned_of_recvAll_eq {mode : Mode} {p q : Peer Byte} (hp : p.Trickle) (hq : q.Lump)
    (hpq : p.bytes = q.bytes) (h : recvAll mode p = recvAll mode q) : Aligned p.bytes := by
  induction hsize : p.size using Nat.strong_induction_on generalizing p q with
  | _ size ih =>
  by_cases hopen : requestComplete p.bytes = true
  · obtain ⟨T, hT⟩ := exists_frameEnd hopen
    by_cases hlong : 2 ^ 24 < T
    · exact .overlong hT hlong
    have hT' : FrameEnd q.bytes T := hpq ▸ hT
    obtain ⟨n, r, q', hr, hb, hn, hTn, hpt, hrest, hq', -⟩ :=
      recvRequest_lump mode hq hT' (by omega)
    obtain ⟨hlim, s, p', hs, hsb, hrest', hp', -⟩ | ⟨p', hs⟩ :=
      recvRequest_trickle mode hp hT
    · rw [recvAll_some (stream_ne_nil hT) hs, recvAll_some (stream_ne_nil hT') hr,
        List.cons.injEq, Option.some.injEq, hsb, hb, hpq] at h
      have hlen := congrArg List.length h.1
      rw [List.length_take_of_le hT'.le, List.length_take_of_le hn] at hlen
      subst hlen
      rcases hpt with hpt | hpt
      · refine .frame hT hpt hlim ?_
        rw [← hrest']
        exact ih _ (hsize ▸ recvRequest_size_lt (stream_ne_nil hT) hs) hp' hq'
          (by rw [hrest', hrest, hpq]) h.2 rfl
      · rw [← hpq] at hpt
        subst hpt
        exact .last hT hlim
    · rw [recvAll_none (stream_ne_nil hT) hs, recvAll_some (stream_ne_nil hT') hr] at h
      cases h
  · exact .incomplete (by simpa using hopen)

/-- Where one request ends and the next begins depends on the segmentation exactly when
the stream is not aligned with the receive buffers. -/
theorem segmentation_independent_iff_aligned (S : Bytes) :
    SegmentationIndependent S ↔ Aligned S := by
  constructor
  · intro h
    have htrickle : (Peer.ofSegments (S.map fun b => [b])).Trickle :=
      Peer.trickle_singletons S .close
    have hbytes : (S.map fun b => [b]).flatten = S := Peer.flatten_singletons S
    have := aligned_of_recvAll_eq htrickle (q := .ofSegments [S]) ⟨S, rfl⟩ (by simp [hbytes])
      (h .blocking _ _ hbytes (by simp))
    rwa [Peer.bytes_ofSegments, hbytes] at this
  · intro h mode segs segs' hS hS'
    obtain ⟨l, hl⟩ := h.receivedAs
    have hC := Peer.steady_pauseless (α := Byte) mode
    rw [hl mode _ _ hC (Peer.pauseless_ofSegments segs) (by simpa using hS) rfl,
      hl mode _ _ hC (Peer.pauseless_ofSegments segs') (by simpa using hS') rfl]

/-- Two pipelined requests come back together or one by one. -/
theorem pipelined_requests_not_independent :
    ¬ SegmentationIndependent
      (ascii "GET /a HTTP/1.1\r\n\r\n" ++ ascii "GET /b HTTP/1.1\r\n\r\n") := by
  intro h
  have := h .blocking [ascii "GET /a HTTP/1.1\r\n\r\n" ++ ascii "GET /b HTTP/1.1\r\n\r\n"]
    [ascii "GET /a HTTP/1.1\r\n\r\n", ascii "GET /b HTTP/1.1\r\n\r\n"] (by simp) (by simp)
  revert this
  decide +kernel

end MinhServer
